import Proxinator.Ip
import Proxinator.Lib.IpForms
import Proxinator.Lib.Subnet

/-!
# What a mask keeps

The bytes of a mask are put together from a counter and strings of ones, and together they
are the number that clears all but the leading bits (`bytesValue_mask`). So the masked address
is a truncation, and what holds of truncations and subnets holds of `mask` and `nets`.

## Main results

* `maskByte_eq`, `bytesValue_mask` — one byte, and all of them.
* `createIP_masks` — the masks and networks of every address.
-/

namespace Proxinator

open Lib

/-- **ipaddr.js converts faithfully**: an address is IPv4 with four bytes or IPv6 with sixteen,
and one that is made from bytes has these bytes and is read back from its text. -/
structure IpAddr.Faithful (lib : IpAddr) : Prop where
  kind_spec : ∀ text parsed, lib.parse text = some parsed →
    (parsed.kind = "ipv4" ∧ parsed.bytes.length = 4) ∨
      (parsed.kind = "ipv6" ∧ parsed.bytes.length = 16)
  fromByteArray_spec : ∀ bytes : Bytes, bytes.length = 4 ∨ bytes.length = 16 →
    ∃ parsed, lib.fromByteArray bytes = some parsed ∧ parsed.bytes = bytes ∧
      lib.parse parsed.text = some parsed

namespace WrappedIp

/-- The address as a number. -/
def value (ip : WrappedIp) : ℕ := bytesValue ip.buffer

/-- How many bits the address has. -/
def bits (ip : WrappedIp) : ℕ := 8 * ip.buffer.length

/-- The entry `address/size` is the network `addresses`, with a prefix of `size` bits. -/
def IsNetwork (lib : IpAddr) (L size : ℕ) (entry : String) (addresses : Set ℕ) : Prop :=
  ∃ text base, entry = text ++ "/" ++ Nat.repr size ∧ createIP lib text = some base ∧
    base.bits = L ∧ addresses = {v | v < 2 ^ L ∧ v / 2 ^ (L - size) = base.value / 2 ^ (L - size)}

/-- **What `mask` and `nets` give for an address** of `L` bits. -/
structure Masks (lib : IpAddr) (ip : WrappedIp) (L : ℕ) : Prop where
  width : (ip.kind = "ipv4" ∧ L = 32) ∨ (ip.kind = "ipv6" ∧ L = 128)
  /-- The masked address has the leading bits, and zeros. -/
  masked : ∀ n ≤ L, ∃ text result, ip.mask lib n = some text ∧
    createIP lib text = some result ∧ result.kind = ip.kind ∧
    result.value = ip.value / 2 ^ (L - n) * 2 ^ (L - n)
  /-- A mask of a masked address. -/
  composed : ∀ m n, m ≤ L → n ≤ L →
    ((ip.mask lib n).bind (createIP lib)).bind (fun result => result.mask lib m) =
      ip.mask lib (min m n)
  /-- Two addresses of one family with the same mask. -/
  agree : ∀ realIp other, createIP lib realIp = some other → other.kind = ip.kind →
    ∀ n ≤ L, ip.mask lib n = other.mask lib n ↔
      ∀ i < n, ip.value.testBit (L - 1 - i) = other.value.testBit (L - 1 - i)
  /-- The networks, each with the address in it and contained in all before it. -/
  networks : ∃ (entries : List String) (network : ℕ → Set ℕ), ip.nets lib = some entries ∧
    entries.length = L ∧ ∀ k, 1 ≤ k → k ≤ L →
      (∃ entry, entries[k - 1]? = some entry ∧ IsNetwork lib L k entry (network k)) ∧
      ip.value ∈ network k ∧ ∀ j, 1 ≤ j → j ≤ k → network k ⊆ network j

/-! ## The bytes of a mask -/

/-- A byte of a mask has that many leading ones. -/
theorem maskByte_eq {k : ℕ} (hk : k ≤ 8) : maskByte k = 2 ^ 8 - 2 ^ (8 - k) := by
  have hall : ∀ k : Fin 9, maskByte k = 2 ^ 8 - 2 ^ (8 - k.val) := by decide
  exact hall ⟨k, by omega⟩

/-- A masked byte. -/
theorem and_maskByte (byte : UInt8) {k : ℕ} (hk : k ≤ 8) :
    (UInt8.ofNat (byte.toNat &&& maskByte k)).toNat = truncate 8 k byte.toNat := by
  have hall : ∀ k : Fin 9, ∀ byte : Fin 256,
      (UInt8.ofNat (byte.val &&& (2 ^ 8 - 2 ^ (8 - k.val)))).toNat = truncate 8 k byte := by
    decide +kernel
  rw [maskByte_eq hk]
  exact hall ⟨k, by omega⟩ ⟨byte.toNat, byte.toNat_lt⟩

/-- The bytes to which `mask` applies the mask. -/
def maskedBytes (buffer : Bytes) (n : ℕ) : Bytes :=
  List.zipWith (fun byte mask => UInt8.ofNat (byte.toNat &&& mask)) buffer
    (maskBytes buffer.length n)

@[simp] theorem length_maskBytes (length n : ℕ) : (maskBytes length n).length = length := by
  induction length generalizing n with
  | zero => rfl
  | succ length ih => rw [maskBytes, List.length_cons, ih]

@[simp] theorem length_maskedBytes (buffer : Bytes) (n : ℕ) :
    (maskedBytes buffer n).length = buffer.length := by
  simp [maskedBytes]

/-- **Masking keeps exactly the leading bits.** -/
theorem bytesValue_mask (buffer : Bytes) (n : ℕ) :
    bytesValue (maskedBytes buffer n) = truncate (8 * buffer.length) n (bytesValue buffer) := by
  induction buffer generalizing n with
  | nil => simp [maskedBytes, bytesValue, truncate]
  | cons byte buffer ih =>
      have hcons : maskedBytes (byte :: buffer) n =
          UInt8.ofNat (byte.toNat &&& maskByte (min n 8)) :: maskedBytes buffer (n - 8) := by
        have hleft : n - min n 8 = n - 8 := by omega
        simp only [maskedBytes, List.length_cons, maskBytes, List.zipWith_cons_cons, hleft]
      have hbyte : truncate 8 (min n 8) byte.toNat = truncate 8 n byte.toNat := by
        rw [← truncate_truncate, truncate_of_le (L := 8) (n := 8) le_rfl]
      rw [hcons, bytesValue, bytesValue, ih, length_maskedBytes,
        and_maskByte byte (Nat.min_le_right n 8), hbyte, List.length_cons, Nat.mul_succ,
        Nat.add_comm _ 8, truncate_byte _ _ (bytesValue_lt buffer)]

/-! ## An address -/

variable {lib : IpAddr} {ip : WrappedIp} {realIp : String}

theorem kind_of_createIP (hlib : lib.Faithful) (h : createIP lib realIp = some ip) :
    (ip.kind = "ipv4" ∧ ip.buffer.length = 4) ∨ (ip.kind = "ipv6" ∧ ip.buffer.length = 16) := by
  obtain ⟨parsed, hparsed, rfl⟩ := Option.map_eq_some_iff.mp h
  exact hlib.kind_spec realIp parsed hparsed

theorem length_of_createIP (hlib : lib.Faithful) (h : createIP lib realIp = some ip) :
    ip.buffer.length = 4 ∨ ip.buffer.length = 16 :=
  (kind_of_createIP hlib h).imp And.right And.right

/-- The number of bytes tells the family. -/
theorem kind_eq_iff (hlib : lib.Faithful) {realIp' : String} {ip' : WrappedIp}
    (h : createIP lib realIp = some ip) (h' : createIP lib realIp' = some ip') :
    ip.kind = ip'.kind ↔ ip.buffer.length = ip'.buffer.length := by
  rcases kind_of_createIP hlib h with ⟨hkind, hlength⟩ | ⟨hkind, hlength⟩ <;>
    rcases kind_of_createIP hlib h' with ⟨hkind', hlength'⟩ | ⟨hkind', hlength'⟩ <;>
    simp [hkind, hkind', hlength, hlength']

/-- **A masked address is read back**, with the masked bytes. -/
theorem createIP_mask (hlib : lib.Faithful) (h : createIP lib realIp = some ip) (n : ℕ) :
    ∃ text result, ip.mask lib n = some text ∧ createIP lib text = some result ∧
      result.buffer = maskedBytes ip.buffer n := by
  obtain ⟨parsed, hparsed, hbytes, hread⟩ := hlib.fromByteArray_spec (maskedBytes ip.buffer n)
    (by simpa using length_of_createIP hlib h)
  refine ⟨parsed.text, ⟨parsed.kind, parsed.bytes, parsed⟩, ?_, ?_, hbytes⟩
  · exact Option.map_eq_some_iff.mpr ⟨parsed, hparsed, rfl⟩
  · rw [createIP, hread]
    rfl

/-- Two addresses of one length have the same mask exactly if they truncate to the same. -/
theorem mask_eq_iff (hlib : lib.Faithful) {realIp' : String} {ip' : WrappedIp} {m n : ℕ}
    (h : createIP lib realIp = some ip) (h' : createIP lib realIp' = some ip')
    (hlength : ip.buffer.length = ip'.buffer.length) :
    ip.mask lib m = ip'.mask lib n ↔ truncate ip.bits m ip.value = truncate ip.bits n ip'.value := by
  have hvalue' : truncate ip.bits n ip'.value = bytesValue (maskedBytes ip'.buffer n) := by
    rw [bytesValue_mask, bits, value, hlength]
  rw [hvalue', bits, value, ← bytesValue_mask]
  constructor
  · intro heq
    obtain ⟨text, result, hmask, hresult, hbuffer⟩ := createIP_mask hlib h m
    obtain ⟨text', result', hmask', hresult', hbuffer'⟩ := createIP_mask hlib h' n
    obtain rfl : text = text' := Option.some.inj (by rw [← hmask, heq, hmask'])
    obtain rfl : result = result' := Option.some.inj (by rw [← hresult, hresult'])
    rw [← hbuffer, hbuffer']
  · intro heq
    have hbuffer : maskedBytes ip.buffer m = maskedBytes ip'.buffer n :=
      bytesValue_inj (by simpa using hlength) heq
    exact congrArg (fun buffer => (lib.fromByteArray buffer).map ParsedIp.text) hbuffer

theorem value_lt (ip : WrappedIp) : ip.value < 2 ^ ip.bits := bytesValue_lt ip.buffer

/-- The subnet of a prefix, as `IsNetwork` describes it. -/
theorem subnet_eq (L n base : ℕ) :
    subnet L n base = {v | v < 2 ^ L ∧ v / 2 ^ (L - n) = base / 2 ^ (L - n)} := by
  ext v
  simp only [subnet, truncate_eq_iff]

/-- One entry of the list of networks. -/
theorem isNetwork_mask (hlib : lib.Faithful) (h : createIP lib realIp = some ip) (n : ℕ) :
    ∃ text, ip.mask lib n = some text ∧
      IsNetwork lib ip.bits n (text ++ "/" ++ Nat.repr n) (subnet ip.bits n ip.value) := by
  obtain ⟨text, result, hmask, hresult, hbuffer⟩ := createIP_mask hlib h n
  refine ⟨text, hmask, text, result, rfl, hresult, ?_, ?_⟩
  · rw [bits, bits, hbuffer, length_maskedBytes]
  · have hvalue : result.value = truncate ip.bits n ip.value := by
      rw [value, hbuffer, bytesValue_mask]
      rfl
    rw [← subnet_eq, hvalue, subnet_truncate]

/-- **The masks and networks of an address.** -/
theorem createIP_masks (lib : IpAddr) (hlib : lib.Faithful) (realIp : String) (ip : WrappedIp)
    (h : createIP lib realIp = some ip) : ip.Masks lib ip.bits := by
  constructor
  · rcases kind_of_createIP hlib h with ⟨hkind, hlength⟩ | ⟨hkind, hlength⟩ <;>
      simp [bits, hkind, hlength]
  · intro n hn
    obtain ⟨text, result, hmask, hresult, hbuffer⟩ := createIP_mask hlib h n
    refine ⟨text, result, hmask, hresult, ?_, ?_⟩
    · rw [kind_eq_iff hlib hresult h, hbuffer, length_maskedBytes]
    · rw [value, hbuffer]
      exact bytesValue_mask ip.buffer n
  · intro m n hm hn
    obtain ⟨text, result, hmask, hresult, hbuffer⟩ := createIP_mask hlib h n
    have hlength : result.buffer.length = ip.buffer.length := by
      rw [hbuffer, length_maskedBytes]
    rw [hmask, Option.bind_some, hresult, Option.bind_some, mask_eq_iff hlib hresult h hlength]
    have hbits : result.bits = ip.bits := congrArg (8 * ·) hlength
    rw [hbits, value, hbuffer, bytesValue_mask]
    exact truncate_truncate
  · intro realIp' other h' hkind n hn
    have hlength := (kind_eq_iff hlib h h').mp hkind.symm
    have hbits : other.bits = ip.bits := congrArg (8 * ·) hlength.symm
    rw [mask_eq_iff hlib h h' hlength]
    exact truncate_eq_iff_testBit hn ip.value_lt (hbits ▸ other.value_lt)
  · choose texts hmask hnetwork using isNetwork_mask hlib h
    refine ⟨(List.range ip.bits).map fun key => texts (key + 1) ++ "/" ++ Nat.repr (key + 1),
      fun k => subnet ip.bits k ip.value, ?_, ?_, ?_⟩
    · have hentry : ∀ key, (ip.mask lib (key + 1)).map (fun text =>
          text ++ "/" ++ Nat.repr (key + 1)) =
            pure (texts (key + 1) ++ "/" ++ Nat.repr (key + 1)) := by
        intro key
        rw [hmask]
        rfl
      rw [nets, Nat.mul_comm]
      simp only [hentry]
      exact List.mapM_pure
    · simp
    · intro k hpos hk
      have hkey : k - 1 + 1 = k := by omega
      refine ⟨⟨_, ?_, hnetwork k⟩, mem_subnet_self ip.value_lt, fun j _ hj => subnet_anti hj⟩
      rw [List.getElem?_map, List.getElem?_range (by omega), Option.map_some, hkey]

end WrappedIp

/-! ## The standard texts -/

/-- An address with the name of its family, its bytes and its text. -/
def parsedIp (ip : Ip) : ParsedIp where
  kind :=
    match ip with
    | .v4 _ => "ipv4"
    | .v6 _ => "ipv6"
  bytes := ip.bytes
  text := String.ofList ip.toText

/-- The conversions over the standard texts of addresses. -/
def IpAddr.standard : IpAddr where
  parse text := (parseIp text.toList).map parsedIp
  fromByteArray bytes := (Ip.ofBytes bytes).map parsedIp

theorem IpAddr.faithful_standard : IpAddr.standard.Faithful := by
  constructor
  · intro text parsed hparse
    obtain ⟨ip, -, rfl⟩ := Option.map_eq_some_iff.mp hparse
    cases ip with
    | v4 ip => exact Or.inl ⟨rfl, rfl⟩
    | v6 ip => exact Or.inr ⟨rfl, by simp [parsedIp, Ip.bytes, pieceBytes, ip.length_pieces]⟩
  · intro bytes hlength
    obtain ⟨ip, hip, hbytes⟩ := Ip.bytes_of_ofBytes hlength
    have hread : parseIp (String.ofList ip.toText).toList = some ip := by
      rw [String.toList_ofList, parseIp_toText]
    exact ⟨parsedIp ip, Option.map_eq_some_iff.mpr ⟨ip, hip, rfl⟩, hbytes,
      Option.map_eq_some_iff.mpr ⟨ip, hread, rfl⟩⟩

/-- `192.168.1.100`. -/
def privateIp : Ip := .v4 ⟨192, 168, 1, 100⟩

theorem WrappedIp.createIP_masks_private :
    WrappedIp.Masks .standard ⟨"ipv4", [192, 168, 1, 100], parsedIp privateIp⟩ 32 := by
  have hparse : parseIp "192.168.1.100".toList = some privateIp := by decide +kernel
  exact createIP_masks .standard IpAddr.faithful_standard "192.168.1.100" _
    (Option.map_eq_some_iff.mpr
      ⟨parsedIp privateIp, Option.map_eq_some_iff.mpr ⟨privateIp, hparse, rfl⟩, rfl⟩)

end Proxinator
