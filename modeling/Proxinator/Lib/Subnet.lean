import Proxinator.Lib.Buffer
import Mathlib.Data.Nat.Bitwise
import Mathlib.Data.Set.Basic

/-!
# Subnets

An address of `L` bits is a number below `2 ^ L`. `truncate L n` clears all but its first `n`
bits, and the subnet of prefix length `n` that an address lies in has the addresses with the
same first `n` bits. Truncations compose to the shorter one (`truncate_truncate`), so the
subnets of an address are nested (`subnet_anti`).

## Main definitions

* `truncate`, `subnet`
* `bytesValue` — the number that bytes spell, the highest first.
-/

namespace Proxinator.Lib

/-- The first `n` of the `L` bits of an address, and zeros. -/
def truncate (L n v : ℕ) : ℕ := v / 2 ^ (L - n) * 2 ^ (L - n)

/-- The addresses of `L` bits with the first `n` bits of `base`. -/
def subnet (L n base : ℕ) : Set ℕ := {v | v < 2 ^ L ∧ truncate L n v = truncate L n base}

variable {L m n v w : ℕ}

theorem truncate_of_le (h : L ≤ n) : truncate L n v = v := by
  simp [truncate, Nat.sub_eq_zero_of_le h]

theorem truncate_zero (hv : v < 2 ^ L) : truncate L 0 v = 0 := by
  simp [truncate, Nat.div_eq_of_lt hv]

/-- **Truncating twice is truncating to the shorter length.** -/
theorem truncate_truncate : truncate L m (truncate L n v) = truncate L (min m n) v := by
  rcases Nat.le_total m n with h | h
  · -- the second truncation clears more
    obtain ⟨k, hk⟩ := Nat.exists_eq_add_of_le (Nat.sub_le_sub_left h L)
    rw [Nat.min_eq_left h, truncate, truncate, truncate, hk, pow_add, ← Nat.div_div_eq_div_mul,
      Nat.mul_div_cancel _ (Nat.two_pow_pos _), Nat.div_div_eq_div_mul]
  · have hdvd : 2 ^ (L - m) ∣ truncate L n v :=
      (pow_dvd_pow 2 (Nat.sub_le_sub_left h L)).mul_left _
    rw [Nat.min_eq_right h, truncate, Nat.div_mul_cancel hdvd]

theorem truncate_eq_iff :
    truncate L n v = truncate L n w ↔ v / 2 ^ (L - n) = w / 2 ^ (L - n) :=
  Nat.mul_left_inj (Nat.two_pow_pos _).ne'

/-- **Two addresses have the same truncation exactly when they agree in the bits it keeps.** -/
theorem truncate_eq_iff_testBit (hn : n ≤ L) (hv : v < 2 ^ L) (hw : w < 2 ^ L) :
    truncate L n v = truncate L n w ↔
      ∀ i < n, v.testBit (L - 1 - i) = w.testBit (L - 1 - i) := by
  rw [truncate_eq_iff, ← Nat.shiftRight_eq_div_pow, ← Nat.shiftRight_eq_div_pow]
  constructor
  · intro h i hi
    have hbit := congrArg (Nat.testBit · (n - 1 - i)) h
    simp only [Nat.testBit_shiftRight] at hbit
    rwa [show L - n + (n - 1 - i) = L - 1 - i by omega] at hbit
  · intro h
    refine Nat.eq_of_testBit_eq fun j => ?_
    rw [Nat.testBit_shiftRight, Nat.testBit_shiftRight]
    by_cases hj : j < n
    · have hbit := h (n - 1 - j) (by omega)
      rwa [show L - 1 - (n - 1 - j) = L - n + j by omega] at hbit
    · have hhigh : 2 ^ L ≤ 2 ^ (L - n + j) := Nat.pow_le_pow_right (by decide) (by omega)
      rw [Nat.testBit_lt_two_pow (hv.trans_le hhigh), Nat.testBit_lt_two_pow (hw.trans_le hhigh)]

/-! ## Subnets -/

theorem mem_subnet_self (hv : v < 2 ^ L) : v ∈ subnet L n v := ⟨hv, rfl⟩

/-- A subnet is that of its truncated address. -/
theorem subnet_truncate : subnet L n (truncate L n v) = subnet L n v := by
  rw [subnet, truncate_truncate, Nat.min_self]
  rfl

/-- **The longer the prefix, the smaller the subnet.** -/
theorem subnet_anti (h : m ≤ n) : subnet L n v ⊆ subnet L m v := by
  rintro w ⟨hw, heq⟩
  refine ⟨hw, ?_⟩
  rw [← Nat.min_eq_left h, ← truncate_truncate, heq, truncate_truncate]

/-! ## Bytes -/

/-- The number that bytes spell. -/
def bytesValue : Bytes → ℕ
  | [] => 0
  | b :: bs => b.toNat * 2 ^ (8 * bs.length) + bytesValue bs

theorem bytesValue_lt (bs : Bytes) : bytesValue bs < 2 ^ (8 * bs.length) := by
  induction bs with
  | nil => simp [bytesValue]
  | cons b bs ih =>
      have hb : b.toNat + 1 ≤ 2 ^ 8 := b.toNat_lt
      rw [bytesValue, List.length_cons, Nat.mul_succ, pow_add, Nat.mul_comm (2 ^ (8 * bs.length))]
      calc b.toNat * 2 ^ (8 * bs.length) + bytesValue bs
          < b.toNat * 2 ^ (8 * bs.length) + 2 ^ (8 * bs.length) := Nat.add_lt_add_left ih _
        _ = (b.toNat + 1) * 2 ^ (8 * bs.length) := (Nat.succ_mul _ _).symm
        _ ≤ 2 ^ 8 * 2 ^ (8 * bs.length) := Nat.mul_le_mul_right _ hb

/-- The upper byte of a number. -/
theorem byte_of_value (b : ℕ) (hv : v < 2 ^ L) : (b * 2 ^ L + v) / 2 ^ L = b := by
  rw [Nat.mul_comm, Nat.mul_add_div (Nat.two_pow_pos L), Nat.div_eq_of_lt hv, Nat.add_zero]

/-- Bytes are determined by their number. -/
theorem bytesValue_inj {bs bs' : Bytes} (hlength : bs.length = bs'.length)
    (h : bytesValue bs = bytesValue bs') : bs = bs' := by
  induction bs generalizing bs' with
  | nil => exact (List.length_eq_zero_iff.mp hlength.symm).symm
  | cons b bs ih =>
      cases bs' with
      | nil => cases hlength
      | cons b' bs' =>
          have htail : bs.length = bs'.length := Nat.succ.inj hlength
          have hlt := bytesValue_lt bs
          have hlt' := bytesValue_lt bs'
          rw [bytesValue, bytesValue, ← htail] at h
          rw [← htail] at hlt'
          have hhigh : b.toNat = b'.toNat := by
            rw [← byte_of_value b.toNat hlt, h, byte_of_value b'.toNat hlt']
          rw [hhigh, Nat.add_left_cancel_iff] at h
          rw [UInt8.toNat_inj.mp hhigh, ih htail h]

/-- The first bits of a number of which the upper eight are a byte. -/
theorem truncate_byte (b n : ℕ) (hv : v < 2 ^ L) :
    truncate (8 + L) n (b * 2 ^ L + v) = truncate 8 n b * 2 ^ L + truncate L (n - 8) v := by
  rcases Nat.le_total n 8 with h | h
  · -- the bits behind the byte are all cleared
    rw [Nat.sub_eq_zero_of_le h, truncate_zero hv, truncate, truncate, Nat.sub_add_comm h,
      pow_add, Nat.mul_comm (2 ^ (8 - n)), ← Nat.div_div_eq_div_mul, byte_of_value b hv,
      Nat.mul_assoc, Nat.mul_comm (2 ^ L), Nat.add_zero]
  · rw [truncate_of_le (v := b) h, truncate, truncate]
    rcases Nat.le_total n (8 + L) with hL | hL
    · have hk : 8 + L - n = L - (n - 8) := by omega
      obtain ⟨j, hj⟩ := Nat.exists_eq_add_of_le (Nat.sub_le L (n - 8))
      rw [hk]
      generalize L - (n - 8) = k at hj ⊢
      rw [hj, pow_add, Nat.mul_comm (2 ^ k), ← Nat.mul_assoc, Nat.mul_comm (b * 2 ^ j) (2 ^ k),
        Nat.mul_add_div (Nat.two_pow_pos k), Nat.add_mul, Nat.mul_comm (2 ^ k)]
    · simp [show 8 + L - n = 0 by omega, show L - (n - 8) = 0 by omega]

end Proxinator.Lib
