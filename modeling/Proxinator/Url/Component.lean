import Proxinator.Lib.Utf8
import Proxinator.Url.Parse

/-!
# Percent-encoded components

`encodeURIComponent` and what it is for: a text that was encoded is decoded again, and it has no
character that the URL parser encodes in user information.

## Main results

* `decodeURIComponent_encodeURIComponent` — the round trip.
* `percentEncode_encodeURIComponent` — the parser leaves an encoded component as it is.
-/

namespace Proxinator

open Lib

/-- The characters that `encodeURIComponent` keeps. -/
def unescaped : List Char :=
  "ABCDEFGHIJKLMNOPQRSTUVWXYZabcdefghijklmnopqrstuvwxyz0123456789-_.!~*'()".toList

/-- `encodeURIComponent`. -/
def encodeURIComponent (component : String) : String :=
  String.ofList (percentEncode (!unescaped.contains ·) component.toList)

example : encodeURIComponent "p@ss: €" = "p%40ss%3A%20%E2%82%AC" := by decide +kernel

/-! ## The round trip -/

theorem percentDecode_byte (byte : UInt8) (rest : List Char) :
    percentDecode (percentEncodeByte byte ++ rest) =
      (percentDecode rest).map fun bytes => byte :: bytes := by
  have hdigit : ∀ d : Fin 16, hexDigit (Nat.digitChar d).toUpper = some d.val := by decide +kernel
  have hlt := byte.toNat_lt
  have hhigh := hdigit ⟨byte.toNat / 16, by omega⟩
  have hlow := hdigit ⟨byte.toNat % 16, by omega⟩
  have hbyte : UInt8.ofNat (16 * (byte.toNat / 16) + byte.toNat % 16) = byte := by
    rw [Nat.div_add_mod, UInt8.ofNat_toNat]
  rw [percentEncodeByte, List.cons_append, List.cons_append, List.cons_append, List.nil_append,
    percentDecode, hhigh, hlow]
  simp only [Option.bind_eq_bind, Option.bind_some, hbyte]
  cases percentDecode rest <;> rfl

theorem percentDecode_bytes (bytes : Bytes) (rest : List Char) :
    percentDecode (bytes.flatMap percentEncodeByte ++ rest) =
      (percentDecode rest).map fun more => bytes ++ more := by
  induction bytes with
  | nil => simp
  | cons byte bytes ih =>
      rw [List.flatMap_cons, List.append_assoc, percentDecode_byte, ih, Option.map_map]
      rfl

/-- A character other than the percent sign stands for itself. -/
theorem percentDecode_cons {c : Char} (hc : c ≠ '%') (rest : List Char) :
    percentDecode (c :: rest) =
      (percentDecode rest).map fun bytes => String.utf8EncodeChar c ++ bytes := by
  rw [percentDecode, if_neg hc]
  · cases percentDecode rest <;> rfl
  · rintro high low rest' rfl
    exact absurd rfl hc

/-- **What was encoded is decoded**, if percent signs are. -/
theorem percentDecode_percentEncode {set : Char → Bool} (hset : set '%' = true)
    (text : List Char) :
    percentDecode (percentEncode set text) = some (text.flatMap String.utf8EncodeChar) := by
  induction text with
  | nil => rfl
  | cons c text ih =>
      rw [percentEncode, List.flatMap_cons, ← percentEncode, List.flatMap_cons]
      split_ifs with hc
      · rw [percentDecode_bytes, ih]
        rfl
      · have hne : c ≠ '%' := by
          rintro rfl
          exact hc hset
        rw [List.singleton_append, percentDecode_cons hne, ih]
        rfl

theorem fromUTF8?_utf8Encode (s : String) :
    String.fromUTF8? (s.toList.flatMap String.utf8EncodeChar).toByteArray = some s := by
  have hbytes : (s.toList.flatMap String.utf8EncodeChar).toByteArray = s.toByteArray :=
    String.utf8Encode_toList
  rw [hbytes]
  exact dif_pos s.isValidUTF8

/-- **A component is decoded as it was encoded.** -/
theorem decodeURIComponent_encodeURIComponent (component : String) :
    decodeURIComponent (encodeURIComponent component) = some component := by
  rw [decodeURIComponent, encodeURIComponent, String.toList_ofList,
    percentDecode_percentEncode (by decide)]
  exact fromUTF8?_utf8Encode component

theorem encodeURIComponent_empty : encodeURIComponent "" = "" := rfl

theorem encodeURIComponent_eq_empty {component : String} :
    encodeURIComponent component = "" ↔ component = "" := by
  constructor
  · intro h
    have hdecoded := decodeURIComponent_encodeURIComponent component
    rw [h, ← encodeURIComponent_empty, decodeURIComponent_encodeURIComponent] at hdecoded
    exact (Option.some.inj hdecoded).symm
  · rintro rfl
    rfl

/-! ## In user information -/

/-- **The parser keeps an encoded component** as user name or password. -/
theorem percentEncode_encodeURIComponent (component : String) :
    percentEncode userinfoSet (encodeURIComponent component).toList =
      (encodeURIComponent component).toList := by
  refine percentEncode_eq_self fun c hc => ?_
  rw [encodeURIComponent, String.toList_ofList] at hc
  have hkept : unescaped.all (!userinfoSet ·) = true := by decide +kernel
  have hdigits : "%0123456789ABCDEF".toList.all (!userinfoSet ·) = true := by decide +kernel
  rcases mem_percentEncode hc with hc | hc
  · have hmem : c ∈ unescaped := by simpa using hc.2
    simpa using List.all_eq_true.mp hkept c hmem
  · simpa using List.all_eq_true.mp hdigits c hc

end Proxinator
