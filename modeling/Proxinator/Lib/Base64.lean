import Proxinator.Lib.Buffer

/-!
# Base64

Three bytes are four digits of six bits; a rest of one or two bytes is two or three digits,
and the text is padded to whole groups of four. The decoder is a lenient one, which passes
over the padding and over everything else that is no digit and takes the digits of either
alphabet.

`base64Decode_base64Encode` is the round trip. The decoder is a left inverse only.
-/

namespace Proxinator.Lib

/-- The digits. -/
def base64Alphabet : List Char :=
  "ABCDEFGHIJKLMNOPQRSTUVWXYZabcdefghijklmnopqrstuvwxyz0123456789+/".toList

/-- The digit with a value below 64. -/
def base64Digit (value : ℕ) : Char := base64Alphabet.getD value '='

/-- The value of a digit; `-` and `_` are those of the alphabet for URLs. -/
def base64Value (c : Char) : Option ℕ :=
  if c = '-' then some 62
  else if c = '_' then some 63
  else base64Alphabet.findIdx? (· = c)

/-- The values of the digits for some bytes. -/
def sextets : Bytes → List ℕ
  | a :: b :: c :: rest =>
    a.toNat / 4 :: (a.toNat % 4 * 16 + b.toNat / 16) :: (b.toNat % 16 * 4 + c.toNat / 64) ::
      c.toNat % 64 :: sextets rest
  | [a, b] => [a.toNat / 4, a.toNat % 4 * 16 + b.toNat / 16, b.toNat % 16 * 4]
  | [a] => [a.toNat / 4, a.toNat % 4 * 16]
  | [] => []

/-- The bytes with the digits of these values; a digit too many is dropped. -/
def ofSextets : List ℕ → Bytes
  | p :: q :: r :: s :: rest =>
    UInt8.ofNat (p * 4 + q / 16) :: UInt8.ofNat (q * 16 + r / 4) :: UInt8.ofNat (r * 64 + s) ::
      ofSextets rest
  | [p, q, r] => [UInt8.ofNat (p * 4 + q / 16), UInt8.ofNat (q * 16 + r / 4)]
  | [p, q] => [UInt8.ofNat (p * 4 + q / 16)]
  | _ => []

/-- The text of some bytes. -/
def base64Encode (b : Bytes) : List Char :=
  (sextets b).map base64Digit ++ List.replicate ((3 - b.length % 3) % 3) '='

/-- The bytes with a text. -/
def base64Decode (text : List Char) : Bytes := ofSextets (text.filterMap base64Value)

example : base64Encode [0x66, 0x6F, 0x6F, 0x62] = "Zm9vYg==".toList := by decide

/-! ## The round trip -/

theorem base64Value_digit {value : ℕ} (h : value < 64) :
    base64Value (base64Digit value) = some value := by
  have hall : ∀ value : Fin 64, base64Value (base64Digit value) = some value.val := by
    decide +kernel
  exact hall ⟨value, h⟩

theorem lt_of_mem_sextets {b : Bytes} {value : ℕ} (h : value ∈ sextets b) : value < 64 := by
  fun_induction sextets b with
  | case1 a b c rest ih =>
      have ha := a.toNat_lt
      have hb := b.toNat_lt
      have hc := c.toNat_lt
      simp only [List.mem_cons] at h
      rcases h with h | h | h | h | h
      · omega
      · omega
      · omega
      · omega
      · exact ih h
  | case2 a b =>
      have ha := a.toNat_lt
      have hb := b.toNat_lt
      simp only [List.mem_cons, List.not_mem_nil, or_false] at h
      omega
  | case3 a =>
      have ha := a.toNat_lt
      simp only [List.mem_cons, List.not_mem_nil, or_false] at h
      omega
  | case4 => cases h

/-- A byte is put together again. -/
theorem ofNat_of_mod {n : ℕ} {b : UInt8} (h : n % 256 = b.toNat) : UInt8.ofNat n = b := by
  apply UInt8.toNat_inj.mp
  rw [UInt8.toNat_ofNat']
  exact h

theorem ofSextets_sextets (b : Bytes) : ofSextets (sextets b) = b := by
  fun_induction sextets b with
  | case1 a b c rest ih =>
      have ha := a.toNat_lt
      have hb := b.toNat_lt
      have hc := c.toNat_lt
      rw [ofSextets, ih, ofNat_of_mod (b := a) (by omega), ofNat_of_mod (b := b) (by omega),
        ofNat_of_mod (b := c) (by omega)]
  | case2 a b =>
      have ha := a.toNat_lt
      have hb := b.toNat_lt
      rw [ofSextets, ofNat_of_mod (b := a) (by omega), ofNat_of_mod (b := b) (by omega)]
  | case3 a =>
      have ha := a.toNat_lt
      rw [ofSextets, ofNat_of_mod (b := a) (by omega)]
  | case4 => rfl

/-- **Decoding inverts encoding.** -/
theorem base64Decode_base64Encode (b : Bytes) : base64Decode (base64Encode b) = b := by
  have hdigits : ∀ values : List ℕ, (∀ value ∈ values, value < 64) →
      (values.map base64Digit).filterMap base64Value = values := by
    intro values hvalues
    induction values with
    | nil => rfl
    | cons value values ih =>
        rw [List.map_cons, List.filterMap_cons_some (base64Value_digit (hvalues _ (by simp))),
          ih fun value' hvalue' => hvalues value' (List.mem_cons_of_mem _ hvalue')]
  have hpadding : ∀ n, (List.replicate n '=').filterMap base64Value = [] := by
    intro n
    have hnone : base64Value '=' = none := by decide
    simp [hnone]
  rw [base64Decode, base64Encode, List.filterMap_append, hdigits _ fun _ => lt_of_mem_sextets,
    hpadding, List.append_nil, ofSextets_sextets]

end Proxinator.Lib
