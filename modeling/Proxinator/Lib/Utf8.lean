import Proxinator.Lib.Buffer

/-!
# UTF-8 text in a byte buffer

`utf8Encode` is the encoder and `utf8Decode` the decoder that never fails: a byte
sequence that encodes no character is replaced by U+FFFD, one replacement for each
longest run of bytes that could still have begun a character. A byte order mark is
kept as a character.

`utf8Decode_utf8Encode` is the round trip. The decoder is a left inverse only:
different malformed buffers decode to the same text.
-/

namespace Proxinator.Lib

/-- The UTF-8 bytes of a string. -/
def utf8Encode (s : String) : Bytes := s.toList.flatMap String.utf8EncodeChar

/-- For a lead byte of several: how many continuation bytes follow it, and the
range of the first one, which excludes overlong forms, surrogates and code points
past U+10FFFF. -/
def continuation (lead : UInt8) : Option (ℕ × UInt8 × UInt8) :=
  if 0xC2 ≤ lead ∧ lead ≤ 0xDF then some (1, 0x80, 0xBF)
  else if lead = 0xE0 then some (2, 0xA0, 0xBF)
  else if lead = 0xED then some (2, 0x80, 0x9F)
  else if 0xE1 ≤ lead ∧ lead ≤ 0xEF then some (2, 0x80, 0xBF)
  else if lead = 0xF0 then some (3, 0x90, 0xBF)
  else if 0xF1 ≤ lead ∧ lead ≤ 0xF3 then some (3, 0x80, 0xBF)
  else if lead = 0xF4 then some (3, 0x80, 0x8F)
  else none

/-- How many bytes behind `lead` one replacement character stands for, when `lead`
begins no whole character. -/
def illFormedTail (lead : UInt8) (rest : Bytes) : ℕ :=
  match continuation lead, rest with
  | some (needed, low, high), second :: more =>
      if low ≤ second ∧ second ≤ high then
        1 + ((more.take (needed - 2)).takeWhile fun b => 0x80 ≤ b && b ≤ 0xBF).length
      else 0
  | _, _ => 0

/-- Decode characters, replacing what encodes none. -/
def utf8DecodeChars : Bytes → List Char
  | [] => []
  | lead :: rest =>
      match (lead :: rest).toByteArray.utf8DecodeChar? 0 with
      | some c => c :: utf8DecodeChars (rest.drop (c.utf8Size - 1))
      | none => '\uFFFD' :: utf8DecodeChars (rest.drop (illFormedTail lead rest))
  termination_by b => b.length
  decreasing_by all_goals simp only [List.length_drop, List.length_cons]; omega

/-- The text of a buffer. -/
def utf8Decode (b : Bytes) : String := String.ofList (utf8DecodeChars b)

theorem utf8DecodeChars_encodeChar (c : Char) (post : Bytes) :
    utf8DecodeChars (String.utf8EncodeChar c ++ post) = c :: utf8DecodeChars post := by
  have hlen : (String.utf8EncodeChar c).length = c.utf8Size := String.length_utf8EncodeChar c
  have hread : (String.utf8EncodeChar c ++ post).toByteArray.utf8DecodeChar? 0 = some c := by
    rw [List.toByteArray_append]
    exact ByteArray.utf8DecodeChar?_utf8EncodeChar_append
  cases henc : String.utf8EncodeChar c with
  | nil => exact absurd henc String.utf8EncodeChar_ne_nil
  | cons lead more =>
      rw [henc, List.length_cons] at hlen
      rw [henc, List.cons_append] at hread
      rw [List.cons_append, utf8DecodeChars, hread]
      simp [← hlen]

/-- **Decoding inverts encoding.** -/
@[simp] theorem utf8Decode_utf8Encode (s : String) : utf8Decode (utf8Encode s) = s := by
  have hchars : ∀ l : List Char, utf8DecodeChars (l.flatMap String.utf8EncodeChar) = l := by
    intro l
    induction l with
    | nil => simp [utf8DecodeChars]
    | cons c l ih => rw [List.flatMap_cons, utf8DecodeChars_encodeChar, ih]
  simp [utf8Decode, utf8Encode, hchars]

/-- Bytes do not decode to nothing. -/
theorem utf8Decode_eq_empty {b : Bytes} : utf8Decode b = "" ↔ b = [] := by
  constructor
  · intro h
    cases b with
    | nil => rfl
    | cons lead rest =>
        have hchars : utf8DecodeChars (lead :: rest) = [] := by
          simpa [utf8Decode] using congrArg String.toList h
        rw [utf8DecodeChars] at hchars
        split at hchars <;> cases hchars
  · rintro rfl
    simp [utf8Decode, utf8DecodeChars]

/-! ## The bytes of a text -/

@[simp] theorem utf8Encode_append (s t : String) :
    utf8Encode (s ++ t) = utf8Encode s ++ utf8Encode t := by
  simp [utf8Encode]

theorem utf8Encode_intercalate (separator : String) (texts : List String) :
    utf8Encode (separator.intercalate texts) =
      (utf8Encode separator).intercalate (texts.map utf8Encode) := by
  induction texts with
  | nil => simp [utf8Encode]
  | cons text texts ih =>
      cases texts with
      | nil => simp
      | cons next texts =>
          rw [String.intercalate_cons_cons, utf8Encode_append, utf8Encode_append, ih,
            ← List.intercalate_cons_of_ne_nil (by simp)]
          rfl

/-- **A byte below 128 is a character by itself.** -/
theorem mem_utf8EncodeChar {c : Char} {b : UInt8} (h : b ∈ String.utf8EncodeChar c)
    (hb : b.toNat < 128) : c.utf8Size = 1 ∧ b = c.val.toUInt8 := by
  -- the bytes of longer encodings have their highest bit set
  have hhigh : ∀ low lead : UInt8, 128 ≤ lead.toNat → b ≠ low ||| lead := by
    rintro low lead hlead rfl
    have hle : lead.toNat ≤ low.toNat ||| lead.toNat := Nat.right_le_or
    rw [UInt8.toNat_or] at hb
    omega
  have hpos := c.utf8Size_pos
  have hle := c.utf8Size_le_four
  obtain hsize | hsize | hsize | hsize :
      c.utf8Size = 1 ∨ c.utf8Size = 2 ∨ c.utf8Size = 3 ∨ c.utf8Size = 4 := by omega
  · rw [String.utf8EncodeChar_eq_singleton hsize] at h
    exact ⟨hsize, List.mem_singleton.mp h⟩
  · rw [String.utf8EncodeChar_eq_cons_cons hsize] at h
    simp only [List.mem_cons, List.not_mem_nil, or_false] at h
    rcases h with h | h <;> exact absurd h (hhigh _ _ (by decide))
  · rw [String.utf8EncodeChar_eq_cons_cons_cons hsize] at h
    simp only [List.mem_cons, List.not_mem_nil, or_false] at h
    rcases h with h | h | h <;> exact absurd h (hhigh _ _ (by decide))
  · rw [String.utf8EncodeChar_eq_cons_cons_cons_cons hsize] at h
    simp only [List.mem_cons, List.not_mem_nil, or_false] at h
    rcases h with h | h | h | h <;> exact absurd h (hhigh _ _ (by decide))

/-- The byte of a character that is one by itself. -/
theorem toNat_toUInt8_of_utf8Size {c : Char} (hsize : c.utf8Size = 1) :
    c.val.toUInt8.toNat = c.val.toNat ∧ c.val.toNat < 128 := by
  have hval := Char.utf8Size_eq_one_iff.mp hsize
  rw [UInt32.le_iff_toNat_le] at hval
  have hlt : c.val.toNat < 128 := Nat.lt_succ_of_le hval
  exact ⟨Nat.mod_eq_of_lt (by omega), hlt⟩

/-- **What does not occur in a text does not occur in its bytes**, if it is a byte by itself. -/
theorem notMem_utf8Encode {s : String} {c : Char} (hsize : c.utf8Size = 1)
    (hc : c ∉ s.toList) : c.val.toUInt8 ∉ utf8Encode s := by
  intro hmem
  obtain ⟨c', hc', hbyte⟩ := List.mem_flatMap.mp hmem
  obtain ⟨hnat, hlt⟩ := toNat_toUInt8_of_utf8Size hsize
  obtain ⟨hsize', heq⟩ := mem_utf8EncodeChar hbyte (by omega)
  have hval : c.val.toNat = c'.val.toNat := by
    rw [← hnat, heq, (toNat_toUInt8_of_utf8Size hsize').1]
  rw [Char.ext (UInt32.toNat_inj.mp hval)] at hc
  exact hc hc'

-- A truncated euro sign is one replacement, an overlong slash is two.
example : utf8Decode [0x61, 0xE2, 0x82, 0x62, 0xC0, 0xAF] = "a\uFFFDb\uFFFD\uFFFD" := by
  decide +kernel

end Proxinator.Lib
