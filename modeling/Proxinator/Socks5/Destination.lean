import Proxinator.Socks5.Wire
import Proxinator.Url.Parse

/-!
# The destination of a SOCKS5 connection

`getDestination` pastes the text of the address into a URL, and the URL parser reads it
again. For an IP address the two agree; a domain is any string that the client has chosen,
and agrees only where it is a host by itself.

## Main results

* `address_of_requests` — the parsed address is the one that the request asks for.
* `getDestination_iff` — the URL names it, unless it is a domain that is no host.
-/

namespace Proxinator.Socks5

open Lib

/-- `getDestination()` of a connection; `none` is the `TypeError` that it throws. -/
def getDestination (tail : List Char → UrlTail) (address : Address) : Option Url :=
  if address.atyp = atypIPv6 then
    newTcpUrl tail ("[" ++ address.host ++ "]:" ++ toString address.port)
  else newTcpUrl tail (address.host ++ ":" ++ toString address.port)

/-! ## What a request asks for -/

/-- The destination of a request. -/
inductive Destination
  | ipv4 (ip : Ipv4)
  | ipv6 (ip : Ipv6)
  | domain (name : Bytes) (fits : name.length < 256)

/-- The pieces of an IPv6 address, of two bytes each. -/
def pieceBytes (pieces : List (Fin 65536)) : Bytes :=
  pieces.flatMap fun piece => uintBE 2 piece.val

namespace Destination

/-- The destination in a request, behind its type. -/
def bytes : Destination → Bytes
  | ipv4 ip => [atypIPv4, ip.a, ip.b, ip.c, ip.d]
  | ipv6 ip => atypIPv6 :: pieceBytes ip.pieces
  | domain name _ => atypDomain :: prefixed 1 name

/-- The address that the server parses it to. -/
def address (port : Fin 65536) : Destination → Address
  | ipv4 ip => ⟨formatIPv4 ip.a ip.b ip.c ip.d, port.val, atypIPv4⟩
  | ipv6 ip => ⟨String.ofList (joinPieces ip.pieces), port.val, atypIPv6⟩
  | domain name _ => ⟨utf8Decode name, port.val, atypDomain⟩

/-- A host name of a URL stands for the destination. -/
def DenotedBy (hostname : String) : Destination → Prop
  | ipv4 ip => parseIpv4 hostname.toList = some ip
  | ipv6 ip => ∃ text, hostname.toList = '[' :: (text ++ [']']) ∧ parseIpv6 text = some ip
  | domain name _ => hostname = utf8Decode name

/-- An IP address, or a domain that is a host by itself: plain characters, or the canonical
text of an IPv6 address in brackets. -/
def IsHost : Destination → Prop
  | ipv4 _ | ipv6 _ => True
  | domain name _ =>
    ((utf8Decode name).toList ≠ [] ∧ ∀ c ∈ (utf8Decode name).toList, Plain c) ∨
      ∃ ip : Ipv6, (utf8Decode name).toList = '[' :: (ip.toText ++ [']'])

end Destination

/-- The request asks for a destination and a port; bytes may follow it. -/
def Requests (data : Bytes) (destination : Destination) (port : Fin 65536) : Prop :=
  ∃ version cmd reserved rest,
    data = version :: cmd :: reserved :: (destination.bytes ++ (uintBE 2 port.val ++ rest))

/-! ## Reading the request -/

/-- A number is read where it was written. -/
theorem uint16At_eq {b : Bytes} (pre post : Bytes) {v offset : ℕ} (hv : v < 65536)
    (hb : b = pre ++ (uintBE 2 v ++ post)) (hoffset : offset = pre.length)
    (h : offset + 2 ≤ b.length) : uint16At b offset h = v := by
  subst hb
  apply Option.get_of_eq_some
  exact readUIntBE_uintBE pre post (by simpa using hv) hoffset

@[simp] theorem length_pieceBytes (pieces : List (Fin 65536)) :
    (pieceBytes pieces).length = 2 * pieces.length := by
  simp [pieceBytes, List.length_flatMap, Nat.mul_comm]

/-- Every piece is read where it was written. -/
theorem uint16At_pieceBytes {b : Bytes} (pre post : Bytes) {pieces : List (Fin 65536)}
    {i offset : ℕ} (hi : i < pieces.length) (hb : b = pre ++ (pieceBytes pieces ++ post))
    (hoffset : offset = pre.length + 2 * i) (h : offset + 2 ≤ b.length) :
    uint16At b offset h = pieces[i].val := by
  have hpieces : pieces = pieces.take i ++ pieces[i] :: pieces.drop (i + 1) := by
    rw [List.getElem_cons_drop, List.take_append_drop]
  have hbytes : pieceBytes pieces =
      pieceBytes (pieces.take i) ++
        (uintBE 2 pieces[i].val ++ pieceBytes (pieces.drop (i + 1))) := by
    conv_lhs => rw [hpieces]
    rw [pieceBytes, List.flatMap_append, List.flatMap_cons]
    rfl
  apply uint16At_eq (pre ++ pieceBytes (pieces.take i))
    (pieceBytes (pieces.drop (i + 1)) ++ post) pieces[i].isLt
  · rw [hb, hbytes]
    simp only [List.append_assoc]
  · rw [hoffset, List.length_append, length_pieceBytes, List.length_take, min_eq_left hi.le]

/-- A request that is parsed has the minimum size. -/
theorem minRequestSize_le {data : Bytes} {address : Address}
    (h : parseAddress data = some address) : 10 ≤ data.length := by
  by_contra hsize
  rw [parseAddress, dif_pos (by simpa using hsize)] at h
  cases h

/-- **The parsed address is the one that the request asks for.** -/
theorem address_of_requests {data : Bytes} {address : Address}
    (h : parseAddress data = some address) {destination : Destination} {port : Fin 65536}
    (hrequests : Requests data destination port) :
    address = destination.address port := by
  have hmin := minRequestSize_le h
  rw [parseAddress, dif_neg (by simpa using hmin)] at h
  obtain ⟨version, cmd, reserved, rest, hdata⟩ := hrequests
  cases destination with
  | ipv4 ip =>
      have hatyp : data[3] = atypIPv4 := by simp [hdata, Destination.bytes]
      have hport : uint16At data 8 (by omega) = port.val :=
        uint16At_eq (version :: cmd :: reserved :: (Destination.ipv4 ip).bytes) rest port.isLt
          hdata rfl _
      simp only [hatyp, if_true, hport, Option.some.injEq] at h
      rw [← h]
      simp [hdata, Destination.bytes, Destination.address]
  | ipv6 ip =>
      have hatyp : data[3] = atypIPv6 := by simp [hdata, Destination.bytes]
      have hlength : 22 ≤ data.length := by
        simp only [hdata, Destination.bytes, List.length_cons, List.length_append,
          length_pieceBytes, ip.length_pieces, length_uintBE]
        omega
      have hport : uint16At data 20 (by omega) = port.val :=
        uint16At_eq (version :: cmd :: reserved :: (Destination.ipv6 ip).bytes) rest port.isLt
          hdata (by simp [Destination.bytes, ip.length_pieces]) _
      have hparts : ((List.finRange 8).map fun i : Fin 8 =>
          toHex (uint16At data (4 + i.val * 2) (by omega))) =
          ip.pieces.map fun piece => String.ofList (pieceText piece) := by
        apply List.ext_getElem
        · simp [ip.length_pieces]
        · intro i hi hi'
          rw [List.length_map] at hi'
          simp only [List.getElem_map, List.getElem_finRange, toHex, pieceText]
          rw [uint16At_pieceBytes [version, cmd, reserved, atypIPv6] _ hi' hdata
            (by simp; omega)]
      have hhost : ":".intercalate (ip.pieces.map fun piece => String.ofList (pieceText piece)) =
          String.ofList (joinPieces ip.pieces) := by
        rw [joinPieces, ← String.toList_inj, String.toList_intercalate]
        simp [Function.comp_def]
      have hatyps : atypIPv6 ≠ atypIPv4 ∧ atypIPv6 ≠ atypDomain := by decide
      simp only [hatyp, hatyps.1, hatyps.2, if_false, if_true, hport, hparts, hhost,
        dif_neg (Nat.not_lt.mpr hlength), Option.some.injEq] at h
      exact h.symm
  | domain name fits =>
      have hatyp : data[3] = atypDomain := by simp [hdata, Destination.bytes]
      have hlen : data[4].toNat = name.length := by
        simp [hdata, Destination.bytes, prefixed, uintBE, Nat.mod_eq_of_lt fits]
      have hlength : 7 + name.length ≤ data.length := by
        simp only [hdata, Destination.bytes, List.length_cons, List.length_append,
          length_prefixed, length_uintBE]
        omega
      have hname : subarray data 5 (5 + name.length) = name := by
        rw [hdata]
        exact subarray_prefixed (n := 1) [version, cmd, reserved, atypDomain] name _ rfl rfl
      have hport : uint16At data (5 + name.length) (by omega) = port.val :=
        uint16At_eq (version :: cmd :: reserved :: (Destination.domain name fits).bytes) rest
          port.isLt hdata (by simp [Destination.bytes]; omega) _
      have hatyps : atypDomain ≠ atypIPv4 := by decide
      simp only [hatyp, hatyps, if_false, if_true, hlen, hname, hport,
        dif_neg (show ¬ data.length < 5 + name.length + 2 by omega), Option.some.injEq] at h
      exact h.symm

/-- Two bytes are a number. -/
theorem exists_uintBE (bytes : Bytes) (h : 2 ≤ bytes.length) :
    ∃ (v : Fin 65536) (rest : Bytes), bytes = uintBE 2 v.val ++ rest := by
  match bytes, h with
  | high :: low :: rest, _ =>
    have hhigh := high.toNat_lt
    have hlow := low.toNat_lt
    refine ⟨⟨high.toNat * 256 + low.toNat, by omega⟩, rest, ?_⟩
    have hdiv : (high.toNat * 256 + low.toNat) / 256 = high.toNat := by omega
    have hmod : (high.toNat * 256 + low.toNat) % 256 = low.toNat := by omega
    simp [uintBE, hdiv, hmod]

theorem exists_pieceBytes (n : ℕ) (bytes : Bytes) (h : 2 * n ≤ bytes.length) :
    ∃ pieces rest, pieces.length = n ∧ bytes = pieceBytes pieces ++ rest := by
  induction n generalizing bytes with
  | zero => exact ⟨[], bytes, rfl, rfl⟩
  | succ n ih =>
      obtain ⟨piece, more, rfl⟩ := exists_uintBE bytes (by omega)
      rw [List.length_append, length_uintBE] at h
      obtain ⟨pieces, rest, hlength, rfl⟩ := ih more (by omega)
      refine ⟨piece :: pieces, rest, by simp [hlength], ?_⟩
      simp [pieceBytes]

/-- **What is parsed asks for something.** -/
theorem exists_requests {data : Bytes} {address : Address} (h : parseAddress data = some address) :
    ∃ destination port, Requests data destination port := by
  have hmin := minRequestSize_le h
  rw [parseAddress, dif_neg (by simpa using hmin)] at h
  match data, hmin with
  | version :: cmd :: reserved :: atyp :: len :: b :: c :: d :: rest, hmin =>
    simp only [List.length_cons] at hmin
    simp only [List.getElem_cons_succ, List.getElem_cons_zero, List.length_cons] at h
    split_ifs at h with hv4 hdomain hfits hv6 hlength
    · obtain ⟨port, more, rfl⟩ := exists_uintBE rest (by omega)
      exact ⟨.ipv4 ⟨len, b, c, d⟩, port, version, cmd, reserved, more, by rw [hv4]; rfl⟩
    · -- the name, and the port behind it
      have hlen := len.toNat_lt
      obtain ⟨port, more, hport⟩ :=
        exists_uintBE ((b :: c :: d :: rest).drop len.toNat) (by simp; omega)
      have hname : ((b :: c :: d :: rest).take len.toNat).length = len.toNat := by
        rw [List.length_take, min_eq_left]
        simp only [List.length_cons]
        omega
      have hprefixed : prefixed 1 ((b :: c :: d :: rest).take len.toNat) =
          len :: (b :: c :: d :: rest).take len.toNat := by
        rw [prefixed, hname]
        simp [uintBE, Nat.mod_eq_of_lt hlen]
      refine ⟨.domain ((b :: c :: d :: rest).take len.toNat) (by omega), port, version, cmd,
        reserved, more, ?_⟩
      rw [hdomain, Destination.bytes, hprefixed, ← hport, List.cons_append, List.cons_append,
        List.take_append_drop]
    · obtain ⟨pieces, more, hpieces, hbytes⟩ :=
        exists_pieceBytes 8 (len :: b :: c :: d :: rest) (by simp; omega)
      have hmore : 2 ≤ more.length := by
        have hlengths := congrArg List.length hbytes
        simp only [List.length_cons, List.length_append, length_pieceBytes, hpieces] at hlengths
        omega
      obtain ⟨port, more, rfl⟩ := exists_uintBE more hmore
      refine ⟨.ipv6 ⟨pieces, hpieces⟩, port, version, cmd, reserved, more, ?_⟩
      rw [hbytes, hv6, Destination.bytes]
      rfl

/-! ## The URL of the destination -/

theorem formatIPv4_eq (ip : Ipv4) : formatIPv4 ip.a ip.b ip.c ip.d = String.ofList ip.toText := by
  rw [← String.toList_inj]
  simp [formatIPv4, Ipv4.toText, Nat.toString_eq_repr]

/-- The host in the text of the URL. -/
def Destination.hostText : Destination → String
  | ipv4 ip => formatIPv4 ip.a ip.b ip.c ip.d
  | ipv6 ip => "[" ++ String.ofList (joinPieces ip.pieces) ++ "]"
  | domain name _ => utf8Decode name

theorem getDestination_eq (tail : List Char → UrlTail) (destination : Destination)
    (port : Fin 65536) :
    getDestination tail (destination.address port) =
      newTcpUrl tail (destination.hostText ++ ":" ++ toString port.val) := by
  rw [getDestination]
  cases destination with
  | ipv4 ip => exact if_neg (show atypIPv4 ≠ atypIPv6 by decide)
  | ipv6 ip =>
      have hcolon : "]:" = "]" ++ ":" := by decide
      simp only [Destination.address, if_true, Destination.hostText, hcolon, String.append_assoc]
  | domain name fits => exact if_neg (show atypDomain ≠ atypIPv6 by decide)

/-- Where the host is read as one, the URL has its name and the port. -/
theorem getDestination_of_readAs (tail : List Char → UrlTail) (destination : Destination)
    (port : Fin 65536) {host hostname : List Char} (hread : ReadAs host hostname)
    (hhost : destination.hostText = String.ofList host) :
    getDestination tail (destination.address port) = some (tcpUrl tail hostname port) := by
  rw [getDestination_eq, hhost]
  exact newTcpUrl_hostPort tail hread port

/-- The URL names a destination with its port. -/
def Names (tail : List Char → UrlTail) (address : Address) (destination : Destination)
    (port : Fin 65536) : Prop :=
  ∃ url, getDestination tail address = some url ∧ url.port = some port ∧
    destination.DenotedBy url.hostname

theorem names_iff (tail : List Char → UrlTail) (destination : Destination) (port : Fin 65536) :
    Names tail (destination.address port) destination port ↔ destination.IsHost := by
  cases destination with
  | ipv4 ip =>
      have hurl := getDestination_of_readAs tail (.ipv4 ip) port
        (readAs_of_parseIpv4 (parseIpv4_toText ip)) (formatIPv4_eq ip)
      refine ⟨fun _ => trivial, fun _ => ⟨_, hurl, rfl, ?_⟩⟩
      rw [Destination.DenotedBy, tcpUrl, String.toList_ofList]
      exact parseIpv4_toText ip
  | ipv6 ip =>
      have hurl := getDestination_of_readAs tail (.ipv6 ip) port
        (readAs_bracket (parseIpv6_full ip))
        (by rw [← String.toList_inj]; simp [Destination.hostText])
      refine ⟨fun _ => trivial, fun _ => ⟨_, hurl, rfl, ip.toText, ?_, parseIpv6_toText ip⟩⟩
      rw [tcpUrl, String.toList_ofList]
  | domain name fits =>
      constructor
      · rintro ⟨url, hurl, hport, hname⟩
        rw [Destination.DenotedBy] at hname
        rw [Destination.IsHost, ← hname]
        rw [getDestination_eq] at hurl
        rcases newTcpUrl_host hurl (by simp [hport]) with hip | ⟨hplain, hne⟩
        · exact Or.inr hip
        · exact Or.inl ⟨hne, hplain⟩
      · intro hhost
        have hread : ReadAs (utf8Decode name).toList (utf8Decode name).toList := by
          rcases hhost with ⟨hne, hplain⟩ | ⟨ip, hip⟩
          · exact readAs_plain hne hplain
          · rw [hip]
            exact readAs_bracket (parseIpv6_toText ip)
        have hurl := getDestination_of_readAs tail (.domain name fits) port hread
          String.ofList_toList.symm
        refine ⟨_, hurl, rfl, ?_⟩
        rw [Destination.DenotedBy, tcpUrl, String.ofList_toList]

/-- **For every request that is parsed, `getDestination` returns a URL of the host and the port
that it asks for, unless it asks for a domain that is no host by itself.** -/
theorem getDestination_iff (tail : List Char → UrlTail) {data : Bytes} {address : Address}
    (h : parseAddress data = some address) :
    (∃ destination port, Requests data destination port) ∧
      ∀ destination port, Requests data destination port →
        (Names tail address destination port ↔ destination.IsHost) := by
  refine ⟨exists_requests h, fun destination port hrequests => ?_⟩
  rw [address_of_requests h hrequests]
  exact names_iff tail destination port

/-- The tail of a URL that has only a path. -/
def pathTail (text : List Char) : UrlTail := ⟨String.ofList text, "", ""⟩

theorem getDestination_plain :
    Names pathTail ⟨"a.b", 80, atypDomain⟩ (.domain [0x61, 0x2E, 0x62] (by decide)) 80 := by
  have h : parseAddress [5, 1, 0, 3, 3, 0x61, 0x2E, 0x62, 0, 80] =
      some ⟨"a.b", 80, atypDomain⟩ := by
    decide +kernel
  have hname : (utf8Decode [0x61, 0x2E, 0x62]).toList = ['a', '.', 'b'] := by decide +kernel
  refine ((getDestination_iff pathTail h).2 (.domain [0x61, 0x2E, 0x62] (by decide)) 80
    ⟨5, 1, 0, [], by decide⟩).mpr (Or.inl ?_)
  rw [hname]
  refine ⟨by simp, ?_⟩
  simp only [List.mem_cons, List.not_mem_nil, or_false]
  rintro c (rfl | rfl | rfl)
  · exact ⟨by decide, by decide⟩
  · exact ⟨by decide, by decide⟩
  · exact ⟨by decide, by decide⟩

/-- **A domain with an `@` sends the tunnel elsewhere**, and one with a space makes
`getDestination` throw. -/
theorem getDestination_at_sign :
    parseAddress [5, 1, 0, 3, 3, 0x78, 0x40, 0x79, 0, 80] = some ⟨"x@y", 80, atypDomain⟩ ∧
    (getDestination pathTail ⟨"x@y", 80, atypDomain⟩).map Url.host = some "y:80" ∧
    ¬ Names pathTail ⟨"x@y", 80, atypDomain⟩ (.domain [0x78, 0x40, 0x79] (by decide)) 80 ∧
    parseAddress [5, 1, 0, 3, 3, 0x78, 0x20, 0x79, 0, 80] = some ⟨"x y", 80, atypDomain⟩ ∧
    getDestination pathTail ⟨"x y", 80, atypDomain⟩ = none := by
  have hurl : (getDestination pathTail ⟨"x@y", 80, atypDomain⟩).map Url.hostname = some "y" := by
    decide +kernel
  refine ⟨by decide +kernel, by decide +kernel, ?_, by decide +kernel, by decide +kernel⟩
  rintro ⟨url, heq, -, hname⟩
  rw [heq] at hurl
  have hy := Option.some.inj hurl
  rw [Destination.DenotedBy, hy] at hname
  exact absurd hname (by decide +kernel)

end Proxinator.Socks5
