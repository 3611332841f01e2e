import Mathlib.Data.List.Basic

/-!
# URLs

The parts of a WHATWG URL that the clients and the servers read. The port is `none` where
its text is empty, which is also so for a URL that gives the default port of its scheme;
such a URL shows no port in its host either.
-/

namespace Proxinator

/-- A URL. -/
structure Url where
  /-- The scheme with its colon. -/
  protocol : String
  username : String
  password : String
  hostname : String
  port : Option (Fin 65536)
  pathname : String
  search : String
  hash : String
  deriving DecidableEq, Repr

namespace Url

/-- The scheme: what comes before the first colon. -/
def protocolName (url : Url) : String :=
  String.ofList (url.protocol.toList.takeWhile (· ≠ ':'))

/-- `host`: the host name, and the port if there is one. -/
def host (url : Url) : String :=
  match url.port with
  | none => url.hostname
  | some port => url.hostname ++ ":" ++ toString port.val

/-- `toString()`: the whole URL, user information included. -/
def href (url : Url) : String :=
  let password := if url.password = "" then "" else ":" ++ url.password
  let userinfo :=
    if url.username = "" ∧ url.password = "" then "" else url.username ++ password ++ "@"
  url.protocol ++ "//" ++ userinfo ++ url.host ++ url.pathname ++ url.search ++ url.hash

/-- `parseInt(url.port, 10) || otherwise`; a port of 0 counts as none. -/
def portOr (url : Url) (otherwise : ℕ) : ℕ :=
  match url.port with
  | none => otherwise
  | some port => if port.val = 0 then otherwise else port.val

end Url

/-! ## Percent encoding -/

/-- The value of a hexadecimal digit. -/
def hexDigit (char : Char) : Option ℕ :=
  if '0' ≤ char ∧ char ≤ '9' then some (char.toNat - '0'.toNat)
  else if 'A' ≤ char ∧ char ≤ 'F' then some (char.toNat - 'A'.toNat + 10)
  else if 'a' ≤ char ∧ char ≤ 'f' then some (char.toNat - 'a'.toNat + 10)
  else none

/-- The UTF-8 bytes that a percent-encoded text stands for. -/
def percentDecode : List Char → Option (List UInt8)
  | [] => some []
  | '%' :: high :: low :: rest => do
    let byte := 16 * (← hexDigit high) + (← hexDigit low)
    return UInt8.ofNat byte :: (← percentDecode rest)
  | char :: rest => do
    if char = '%' then none
    return String.utf8EncodeChar char ++ (← percentDecode rest)

/-- `decodeURIComponent`; `none` is the `URIError` it throws. -/
def decodeURIComponent (component : String) : Option String := do
  String.fromUTF8? (← percentDecode component.toList).toByteArray

example : decodeURIComponent "p%40ss%E2%82%AC" = some "p@ss€" := by decide +kernel

example : decodeURIComponent "100%" = none := by decide +kernel

end Proxinator
