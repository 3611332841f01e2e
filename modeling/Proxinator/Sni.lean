import Proxinator.Lib.Utf8

/-!
# The SNI parser

`readHandshake` puts the first handshake message together from consecutive TLS
records, `parseClientHello` walks a ClientHello to its `server_name` extension, and
`isClientHello`, `isComplete` and `parseSNI` are what callers use on the bytes
buffered so far. The loops keep the source's variables; each is a recursion on its
offset, which every iteration moves forward.

A thrown error is an `Except.error`. `isComplete` and `parseSNI` catch them all.
-/

namespace Proxinator.Sni

open Lib

/-- TLS record header size: content type, version, uint16 length. -/
@[simp] abbrev recordHeaderSize : ℕ := 5

/-- Handshake message header size: message type, uint24 length. -/
@[simp] abbrev handshakeHeaderSize : ℕ := 4

/-- TLS record content type: handshake. -/
@[simp] abbrev contentTypeHandshake : UInt8 := 22

/-- Handshake message type: ClientHello. -/
@[simp] abbrev handshakeClientHello : UInt8 := 1

/-- Extension type: server_name. -/
@[simp] abbrev extensionServerName : ℕ := 0

/-- ServerName name type: host_name. -/
@[simp] abbrev nameTypeHostName : UInt8 := 0

/-- What the parser throws: an error of its own, or the range error of a buffer
read. -/
inductive SniError
  | error (message : String)
  | range
  deriving DecidableEq, Repr

/-- A buffer read that throws when it leaves the buffer. -/
def ofRead {α : Type} : Option α → Except SniError α
  | some a => .ok a
  | none => .error .range

@[simp] theorem ofRead_some {α : Type} (a : α) : ofRead (some a) = .ok a := rfl

/-- The result of `readHandshake`; `complete = false` means more data is needed. -/
structure Handshake where
  complete : Bool
  message : Option Bytes
  deriving DecidableEq, Repr

/-- More data is needed. -/
def Handshake.incomplete : Handshake := ⟨false, none⟩

/-! ## Reassembling the handshake message -/

/-- `total` after a fragment has been pushed: known once the handshake header is. -/
def nextTotal (fragments : List Bytes) (collected : ℕ) (total : Option ℕ) :
    Except SniError (Option ℕ) :=
  if total = none ∧ handshakeHeaderSize ≤ collected then do
    let length ← ofRead (readUIntBE fragments.flatten 1 3)
    pure (some (handshakeHeaderSize + length))
  else pure total

/-- The `while (total === null || collected < total)` loop of `readHandshake`. -/
def readHandshakeLoop (buf : Bytes) (fragments : List Bytes) (offset collected : ℕ)
    (total : Option ℕ) : Except SniError Handshake :=
  if total.all (collected < ·) then
    if offset + recordHeaderSize > buf.length then .ok .incomplete
    else if buf[offset]? ≠ some contentTypeHandshake then
      .error (.error "Not a TLS handshake record")
    else
      match readUInt16BE buf (offset + 3) with
      | none => .error .range
      | some length =>
        -- Zero-length handshake fragments are forbidden by RFC 8446 5.1
        if length = 0 then .error (.error "Empty TLS handshake record")
        else if offset + recordHeaderSize + length > buf.length then .ok .incomplete
        else
          let start := offset + recordHeaderSize
          let fragments' := fragments ++ [subarray buf start (start + length)]
          match nextTotal fragments' (collected + length) total with
          | .error e => .error e
          | .ok total' =>
            readHandshakeLoop buf fragments' (start + length) (collected + length) total'
  -- the loop only ends with `total` known
  else .ok ⟨true, some (subarray fragments.flatten 0 (total.getD 0))⟩
  termination_by buf.length - offset
  decreasing_by simp only [recordHeaderSize] at *; omega

/-- Reassemble the first handshake message from consecutive TLS records. -/
def readHandshake (buf : Bytes) : Except SniError Handshake :=
  readHandshakeLoop buf [] 0 0 none

/-! ## Walking the ClientHello -/

/-- The `while` loop of `parseServerNameList`, up to `stop`. -/
def serverNameListLoop (data : Bytes) (stop offset : ℕ) : Except SniError (Option String) :=
  if offset + 3 ≤ stop then
    match readUInt16BE data (offset + 1) with
    | none => .error .range
    | some length =>
      let start := offset + 3
      if start + length > stop then .ok none
      else if data[offset]? = some nameTypeHostName then
        .ok (some (utf8Decode (subarray data start (start + length))))
      else serverNameListLoop data stop (start + length)
  else .ok none
  termination_by stop - offset
  decreasing_by omega

/-- Find the host_name entry in a server_name extension body. -/
def parseServerNameList (data : Bytes) : Except SniError (Option String) := do
  let listLength ← ofRead (readUInt16BE data 0)
  serverNameListLoop data (min (2 + listLength) data.length) 2

/-- The `while` loop of `parseClientHello` over the extensions block. -/
def extensionsLoop (message : Bytes) (extensionsEnd offset : ℕ) :
    Except SniError (Option String) :=
  if offset + 4 ≤ extensionsEnd then
    match readUInt16BE message offset, readUInt16BE message (offset + 2) with
    | some type, some length =>
      let start := offset + 4
      if type = extensionServerName then
        parseServerNameList (subarray message start (min (start + length) extensionsEnd))
      else extensionsLoop message extensionsEnd (start + length)
    | _, _ => .error .range
  else .ok none
  termination_by extensionsEnd - offset
  decreasing_by omega

/-- Walk a ClientHello handshake message, its 4-byte header included, to its
server_name extension. -/
def parseClientHello (message : Bytes) : Except SniError (Option String) :=
  if message[0]? ≠ some handshakeClientHello then .ok none
  else do
    let offset := handshakeHeaderSize + 2 + 32 -- client_version + random
    let sessionId ← ofRead (readUInt8 message offset)
    let offset := offset + (1 + sessionId)
    let cipherSuites ← ofRead (readUInt16BE message offset)
    let offset := offset + (2 + cipherSuites)
    let compressionMethods ← ofRead (readUInt8 message offset)
    let offset := offset + (1 + compressionMethods)
    -- Extensions are optional in pre-TLS 1.3 hellos
    if offset + 2 > message.length then .ok none
    else do
      let extensions ← ofRead (readUInt16BE message offset)
      extensionsLoop message (min (offset + 2 + extensions) message.length) (offset + 2)

/-! ## What callers use -/

/-- Check if a buffer starts with a TLS ClientHello message. -/
def isClientHello (buf : Bytes) : Bool :=
  buf[0]? = some 22 && buf[1]? = some 0x03 && buf[5]? = some 0x01

/-- Check whether enough data has been buffered to parse the ClientHello; also true
for malformed data, which more bytes would not help. -/
def isComplete (buf : Bytes) : Bool :=
  match readHandshake buf with
  | .ok handshake => handshake.complete
  | .error _ => true

/-- Extract the SNI hostname; `none` if not found, incomplete or malformed. -/
def parseSNI (buf : Bytes) : Option String :=
  match readHandshake buf with
  | .ok ⟨true, some message⟩ =>
    match parseClientHello message with
    | .ok hostname => hostname
    | .error _ => none
  | _ => none

end Proxinator.Sni
