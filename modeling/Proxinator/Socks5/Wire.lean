import Proxinator.Lib.Utf8

/-!
# SOCKS5 messages

The parsers and replies of the SOCKS5 server. A parser is given one chunk and takes it for
the whole message; an index past its end reads `undefined`, a `none` here. Where the source
reads an integer the length has been checked before, so the read cannot throw: it takes the
value out of the `Option` with a proof.
-/

namespace Proxinator.Socks5

open Lib

/-- SOCKS5 protocol version. -/
@[simp] abbrev socksVersion : UInt8 := 0x05

/-- No authentication required. -/
@[simp] abbrev authNone : UInt8 := 0x00

/-- Username/password authentication. -/
@[simp] abbrev authUserpass : UInt8 := 0x02

/-- No acceptable methods. -/
@[simp] abbrev authNoAcceptable : UInt8 := 0xFF

/-- CONNECT command. -/
@[simp] abbrev cmdConnect : UInt8 := 0x01

/-- IPv4 address type. -/
@[simp] abbrev atypIPv4 : UInt8 := 0x01

/-- Domain name address type. -/
@[simp] abbrev atypDomain : UInt8 := 0x03

/-- IPv6 address type. -/
@[simp] abbrev atypIPv6 : UInt8 := 0x04

/-- Minimum request size: VER + CMD + RSV + ATYP + IPv4(4) + PORT(2). -/
@[simp] abbrev minRequestSize : ℕ := 10

/-- Minimum auth subnegotiation size: VER + ULEN + (1 char) + PLEN + (1 char). -/
@[simp] abbrev minAuthSize : ℕ := 5

/-- Build a SOCKS5 reply: VER, REP, RSV, ATYP(IPv4), BND.ADDR(0.0.0.0), BND.PORT(0). -/
def buildReply (rep : UInt8) : Bytes :=
  [socksVersion, rep, 0x00, atypIPv4, 0x00, 0x00, 0x00, 0x00, 0x00, 0x00]

/-- A destination address. -/
structure Address where
  host : String
  port : ℕ
  atyp : UInt8
  deriving DecidableEq, Repr

/-- Parsed username and password. -/
structure Credentials where
  username : String
  password : String
  deriving DecidableEq, Repr

/-- A 16-bit read inside the buffer. -/
def uint16At (b : Bytes) (offset : ℕ) (h : offset + 2 ≤ b.length) : ℕ :=
  (readUInt16BE b offset).get ((isSome_readUIntBE b offset 2).mpr (Or.inr h))

/-- The text of an IPv4 address. -/
def formatIPv4 (a b c d : UInt8) : String :=
  toString a.toNat ++ "." ++ toString b.toNat ++ "." ++ toString c.toNat ++ "." ++
    toString d.toNat

/-- `toString(16)` of a number. -/
def toHex (n : ℕ) : String := String.ofList (Nat.toDigits 16 n)

/-- Parse the destination address from a request. -/
def parseAddress (data : Bytes) : Option Address :=
  if hsize : data.length < minRequestSize then none
  else
    have hmin : 10 ≤ data.length := Nat.le_of_not_lt hsize
    let atyp := data[3]
    if atyp = atypIPv4 then
      some ⟨formatIPv4 data[4] data[5] data[6] data[7], uint16At data 8 (by omega), atyp⟩
    else if atyp = atypDomain then
      let domainLen := data[4].toNat
      if hdomain : data.length < 5 + domainLen + 2 then none
      else
        some ⟨utf8Decode (subarray data 5 (5 + domainLen)),
          uint16At data (5 + domainLen) (by omega), atyp⟩
    else if atyp = atypIPv6 then
      if hipv6 : data.length < 22 then none
      else
        let parts := (List.finRange 8).map fun i : Fin 8 =>
          toHex (uint16At data (4 + i.val * 2) (by omega))
        some ⟨String.intercalate ":" parts, uint16At data 20 (by omega), atyp⟩
    else none

/-- Parse username and password from an auth subnegotiation message. -/
def parseAuth (data : Bytes) : Option Credentials :=
  if hsize : data.length < minAuthSize then none
  else
    have hmin : 5 ≤ data.length := Nat.le_of_not_lt hsize
    let ulen := data[1].toNat
    if huser : data.length < 3 + ulen then none
    else
      let username := utf8Decode (subarray data 2 (2 + ulen))
      let plen := data[2 + ulen].toNat
      if data.length < 3 + ulen + plen then none
      else some ⟨username, utf8Decode (subarray data (3 + ulen) (3 + ulen + plen))⟩

/-- `methods` of the greeting handler: as many entries as the greeting announces, also where
it has no byte for one. -/
def offeredMethods (greeting : Bytes) : List (Option UInt8) :=
  match greeting[1]? with
  | some nmethods => (List.range nmethods.toNat).map fun i => greeting[2 + i]?
  | none => []

example : parseAddress [5, 1, 0, 1, 127, 0, 0, 1, 0x1F, 0x90] = some ⟨"127.0.0.1", 8080, 1⟩ := by
  decide

example : parseAuth [1, 1, 0x75, 2, 0x70, 0x77] = some ⟨"u", "pw"⟩ := by decide +kernel

end Proxinator.Socks5
