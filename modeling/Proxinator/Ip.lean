import Proxinator.Lib.Buffer
import Proxinator.Lib.IpText

/-!
# Address utilities

`createIP` wraps an address that ipaddr.js parses, for masking it and listing its networks.

Of the rest the servers use `normalizeAddress`, which turns the IPv4-mapped IPv6 form in
which a dual-stack socket reports an IPv4 peer into the plain IPv4 form, and
`normalizeFamily`, which says what family the address then has.
-/

namespace Proxinator

open Lib

/-- An address of ipaddr.js. -/
structure ParsedIp where
  /-- `kind()`. -/
  kind : String
  /-- `toByteArray()`. -/
  bytes : Bytes
  /-- `toString()`. -/
  text : String

/-- What `createIP` uses of ipaddr.js, whose functions throw on what is no address. -/
structure IpAddr where
  /-- `parse(text)`. -/
  parse : String → Option ParsedIp
  /-- `fromByteArray(bytes)`. -/
  fromByteArray : Bytes → Option ParsedIp

/-- The wrapper that `createIP` makes. -/
structure WrappedIp where
  /-- `_kind`. -/
  kind : String
  /-- `_buffer`. -/
  buffer : Bytes
  /-- `_parsed`. -/
  parsed : ParsedIp

/-- Create an IP address wrapper. -/
def createIP (lib : IpAddr) (realIp : String) : Option WrappedIp :=
  (lib.parse realIp).map fun parsed => ⟨parsed.kind, parsed.bytes, parsed⟩

/-- `parseInt(Array(mask).fill("1").join("").padEnd(8, "0"), 2)`. -/
def maskByte (mask : ℕ) : ℕ :=
  (readDigits 2 ((List.replicate mask '1').rightpad 8 '0')).getD 0

/-- The bytes of a mask of `maskSize` bits, of which each byte takes up to eight. -/
def maskBytes : ℕ → ℕ → List ℕ
  | 0, _ => []
  | length + 1, maskSize =>
    let mask := min maskSize 8
    maskByte mask :: maskBytes length (maskSize - mask)

namespace WrappedIp

/-- The normalized text of the address. -/
def toString (ip : WrappedIp) : String := ip.parsed.text

/-- Apply a CIDR mask to the address. -/
def mask (lib : IpAddr) (ip : WrappedIp) (initialMaskSize : ℕ) : Option String :=
  let mask := maskBytes ip.buffer.length initialMaskSize
  let buffer := List.zipWith (fun byte mask => UInt8.ofNat (byte.toNat &&& mask)) ip.buffer mask
  (lib.fromByteArray buffer).map ParsedIp.text

/-- Generate all possible CIDR notations for the address. -/
def nets (lib : IpAddr) (ip : WrappedIp) : Option (List String) :=
  let mask := ip.buffer.length * 8
  (List.range mask).mapM fun key =>
    (ip.mask lib (key + 1)).map fun text => text ++ "/" ++ Nat.repr (key + 1)

end WrappedIp

/-- `"::ffff:"`, what the text of an IPv4-mapped IPv6 address begins with. -/
def mappedMark : List Char := "::ffff:".toList

/-- Normalize an IPv4-mapped IPv6 address to plain IPv4. -/
def normalizeAddress (address : String) : String :=
  if mappedMark.isPrefixOf address.toList then
    String.ofList (address.toList.drop mappedMark.length)
  else address

/-- The real address family of a socket: that of the plain IPv4 form, where there is one. A
closed socket has no address, and any family it still has is kept. -/
def normalizeFamily (address family : Option String) : Option String :=
  match address with
  | none => family
  | some address => if mappedMark.isPrefixOf address.toList then some "IPv4" else family

example : normalizeAddress "::ffff:127.0.0.1" = "127.0.0.1" := by decide

end Proxinator
