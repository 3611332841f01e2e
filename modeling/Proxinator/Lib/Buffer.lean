import Mathlib.Data.List.TakeDrop
import Mathlib.Tactic.Ring

/-!
# Byte buffers

Buffers are lists of bytes. A read past the end has no value, so every reader
returns an `Option`, and the one reader underneath is `readUIntBE`: `n` bytes,
big-endian, from an offset. Its encoder is `uintBE`. A field whose length stands
in front of it is `prefixed`.

The two facts a parser proof needs are here once: an encoded number is read back
at the offset it was written to (`readUIntBE_uintBE`), and a read that succeeds is
not changed by bytes that arrive later (`readUIntBE_append`).

## Main definitions

* `readUIntBE`, `readUInt8`, `readUInt16BE` — big-endian reads.
* `subarray` — the bytes from one offset up to another.
* `uintBE`, `prefixed` — the encoders.
-/

namespace Proxinator.Lib

/-- A byte buffer. -/
abbrev Bytes := List UInt8

/-- The big-endian number in the `n` bytes at `offset`; `none` is the range error
a read past the end throws. -/
def readUIntBE (b : Bytes) (offset : ℕ) : ℕ → Option ℕ
  | 0 => some 0
  | n + 1 => do
      let high ← readUIntBE b offset n
      let low ← b[offset + n]?
      pure (high * 256 + low.toNat)

/-- One byte. -/
def readUInt8 (b : Bytes) (offset : ℕ) : Option ℕ := readUIntBE b offset 1

/-- Two bytes, big-endian. -/
def readUInt16BE (b : Bytes) (offset : ℕ) : Option ℕ := readUIntBE b offset 2

/-- The bytes from `start` up to `stop`, clamped to the buffer. -/
def subarray (b : Bytes) (start stop : ℕ) : Bytes := (b.drop start).take (stop - start)

/-- The `n` low bytes of a number, big-endian. -/
def uintBE : ℕ → ℕ → Bytes
  | 0, _ => []
  | n + 1, v => uintBE n (v / 256) ++ [UInt8.ofNat (v % 256)]

/-- A field behind its own length, written in `n` bytes. -/
def prefixed (n : ℕ) (body : Bytes) : Bytes := uintBE n body.length ++ body

/-! ## Encoding -/

@[simp] theorem length_uintBE (n v : ℕ) : (uintBE n v).length = n := by
  induction n generalizing v with
  | zero => rfl
  | succ n ih => simp [uintBE, ih]

@[simp] theorem length_prefixed (n : ℕ) (body : Bytes) :
    (prefixed n body).length = n + body.length := by
  simp [prefixed]

@[simp] theorem length_subarray (b : Bytes) (start stop : ℕ) :
    (subarray b start stop).length = min (stop - start) (b.length - start) := by
  simp [subarray]

/-! ## Reading -/

/-- A read succeeds exactly when it stays inside the buffer. -/
theorem isSome_readUIntBE (b : Bytes) (offset n : ℕ) :
    (readUIntBE b offset n).isSome ↔ n = 0 ∨ offset + n ≤ b.length := by
  induction n with
  | zero => simp [readUIntBE]
  | succ n ih =>
      cases hhigh : readUIntBE b offset n with
      | none =>
          have hout : ¬(n = 0 ∨ offset + n ≤ b.length) := by
            rw [← ih, hhigh]; simp
          simp only [readUIntBE, hhigh, Option.bind_none, Option.bind_eq_bind,
            Option.isSome_none, Bool.false_eq_true, false_iff]
          omega
      | some high =>
          simp only [readUIntBE, hhigh, Option.bind_some, Option.bind_eq_bind,
            Option.pure_def, Nat.add_eq_zero_iff, one_ne_zero, and_false, false_or]
          by_cases hin : offset + n < b.length
          · simp [List.getElem?_eq_getElem hin]; omega
          · simp [List.getElem?_eq_none (Nat.le_of_not_lt hin)]; omega

/-- **Bytes that arrive later do not change a read that succeeds.** -/
theorem readUIntBE_append {b : Bytes} {offset n : ℕ} (h : offset + n ≤ b.length) (s : Bytes) :
    readUIntBE (b ++ s) offset n = readUIntBE b offset n := by
  induction n with
  | zero => rfl
  | succ n ih =>
      simp only [readUIntBE]
      rw [ih (by omega), List.getElem?_append_left (by omega)]

/-- A read after `pre` is a read of what follows `pre`. -/
theorem readUIntBE_append_right (pre b : Bytes) (offset n : ℕ) :
    readUIntBE (pre ++ b) (pre.length + offset) n = readUIntBE b offset n := by
  induction n with
  | zero => rfl
  | succ n ih =>
      simp only [readUIntBE, ih]
      rw [List.getElem?_append_right (by omega),
        show pre.length + offset + n - pre.length = offset + n by omega]

/-- A read in the bytes behind `k`. -/
theorem readUIntBE_drop (b : Bytes) (k offset n : ℕ) :
    readUIntBE (b.drop k) offset n = readUIntBE b (k + offset) n := by
  induction n with
  | zero => rfl
  | succ n ih => simp only [readUIntBE, ih, List.getElem?_drop, Nat.add_assoc]

theorem readUIntBE_uintBE_zero {n v : ℕ} (hv : v < 256 ^ n) (post : Bytes) :
    readUIntBE (uintBE n v ++ post) 0 n = some v := by
  induction n generalizing v post with
  | zero => simp [readUIntBE] at *; omega
  | succ n ih =>
      have hhigh : v / 256 < 256 ^ n := by
        rw [Nat.div_lt_iff_lt_mul (by norm_num), ← pow_succ]; exact hv
      have hbyte : (UInt8.ofNat (v % 256)).toNat = v % 256 := by simp
      simp only [readUIntBE, uintBE, List.append_assoc]
      rw [ih hhigh]
      simp [hbyte, Nat.div_add_mod']

/-- **A number is read back at the offset it was written to.** -/
theorem readUIntBE_uintBE {n v offset : ℕ} (pre post : Bytes) (hv : v < 256 ^ n)
    (ho : offset = pre.length) :
    readUIntBE (pre ++ (uintBE n v ++ post)) offset n = some v := by
  subst ho
  exact (readUIntBE_append_right pre _ 0 n).trans (readUIntBE_uintBE_zero hv post)

/-- The length in front of a field is read back. -/
theorem readUIntBE_prefixed {n offset : ℕ} (pre : Bytes) {body : Bytes} (post : Bytes)
    (hfit : body.length < 256 ^ n) (ho : offset = pre.length) :
    readUIntBE (pre ++ (prefixed n body ++ post)) offset n = some body.length := by
  rw [prefixed, List.append_assoc]
  exact readUIntBE_uintBE pre _ hfit ho

/-! ## Slices -/

theorem subarray_append {b : Bytes} {start stop : ℕ} (h : stop ≤ b.length) (s : Bytes) :
    subarray (b ++ s) start stop = subarray b start stop := by
  simp only [subarray]
  by_cases hs : start ≤ b.length
  · rw [List.drop_append_of_le_length hs, List.take_append_of_le_length (by simp; omega)]
  · simp [show stop - start = 0 by omega]

theorem subarray_drop (b : Bytes) (k start stop : ℕ) :
    subarray (b.drop k) start stop = subarray b (k + start) (k + stop) := by
  simp only [subarray, List.drop_drop]
  rw [Nat.add_sub_add_left]

/-- A byte of a slice is a byte of the buffer. -/
theorem getElem?_subarray (b : Bytes) (start stop i : ℕ) :
    (subarray b start stop)[i]? = if start + i < stop then b[start + i]? else none := by
  have hlt : i < stop - start ↔ start + i < stop := by omega
  simp only [subarray, List.getElem?_take, List.getElem?_drop, hlt]

/-- What is read in a slice stands in the buffer. -/
theorem readUIntBE_subarray {b : Bytes} {start stop offset n v : ℕ}
    (h : readUIntBE (subarray b start stop) offset n = some v) :
    readUIntBE b (start + offset) n = some v := by
  induction n generalizing v with
  | zero => exact h
  | succ n ih =>
      simp only [readUIntBE, Option.bind_eq_bind, Option.bind_eq_some_iff] at h ⊢
      obtain ⟨high, hhigh, low, hlow, hv⟩ := h
      refine ⟨high, ih hhigh, low, ?_, hv⟩
      rw [getElem?_subarray] at hlow
      split_ifs at hlow
      rwa [Nat.add_assoc]

theorem readUInt16BE_subarray {b : Bytes} {start stop offset v : ℕ}
    (h : readUInt16BE (subarray b start stop) offset = some v) :
    readUInt16BE b (start + offset) = some v :=
  readUIntBE_subarray h

/-- A slice of a slice. -/
theorem subarray_subarray (b : Bytes) {start stop : ℕ} (s : ℕ) {t : ℕ} (h : start + t ≤ stop) :
    subarray (subarray b start stop) s t = subarray b (start + s) (start + t) := by
  have hlength : min (t - s) (stop - start - s) = start + t - (start + s) := by omega
  simp only [subarray, List.drop_take, List.drop_drop, List.take_take, hlength]

/-- The slice over a field is the field. -/
theorem subarray_field {start stop : ℕ} (pre field post : Bytes) (hs : start = pre.length)
    (he : stop = start + field.length) :
    subarray (pre ++ (field ++ post)) start stop = field := by
  subst hs he
  simp [subarray]

theorem subarray_prefixed {n start stop : ℕ} (pre body post : Bytes)
    (hs : start = pre.length + n) (he : stop = start + body.length) :
    subarray (pre ++ (prefixed n body ++ post)) start stop = body := by
  rw [prefixed, List.append_assoc, ← List.append_assoc pre]
  exact subarray_field _ _ _ (by simp [hs]) he

/-- **The bytes that a number was read from are its encoding.** -/
theorem uintBE_of_readUIntBE {b : Bytes} {offset n v : ℕ} (h : readUIntBE b offset n = some v) :
    uintBE n v = subarray b offset (offset + n) ∧ v < 256 ^ n := by
  induction n generalizing v with
  | zero =>
      obtain rfl := Option.some.inj h
      simp [uintBE, subarray]
  | succ n ih =>
      simp only [readUIntBE, Option.bind_eq_bind, Option.bind_eq_some_iff, Option.pure_def,
        Option.some.injEq] at h
      obtain ⟨high, hhigh, low, hlow, rfl⟩ := h
      obtain ⟨hbytes, hbound⟩ := ih hhigh
      have hbyte := low.toNat_lt
      have hdiv : (high * 256 + low.toNat) / 256 = high := by omega
      have hmod : (high * 256 + low.toNat) % 256 = low.toNat := by omega
      constructor
      · rw [uintBE, hdiv, hmod, hbytes, UInt8.ofNat_toNat, subarray, subarray,
          Nat.add_sub_cancel_left, Nat.add_sub_cancel_left, List.take_add_one,
          List.getElem?_drop, hlow]
        rfl
      · rw [pow_succ]
        omega

/-- A byte that counts a field, and the field behind it. -/
theorem drop_eq_prefixed {b : Bytes} {offset : ℕ} {length : UInt8}
    (hread : b[offset]? = some length) (hfit : offset + 1 + length.toNat ≤ b.length) :
    b.drop offset = prefixed 1 (subarray b (offset + 1) (offset + 1 + length.toNat)) ++
      b.drop (offset + 1 + length.toNat) := by
  obtain ⟨hlt, hbyte⟩ := List.getElem?_eq_some_iff.mp hread
  have hlength : (subarray b (offset + 1) (offset + 1 + length.toNat)).length = length.toNat := by
    rw [length_subarray]
    omega
  have huint : uintBE 1 length.toNat = [length] := by
    have hsmall := length.toNat_lt
    simp [uintBE, Nat.mod_eq_of_lt hsmall]
  have hbehind : b.drop (offset + 1 + length.toNat) = (b.drop (offset + 1)).drop length.toNat := by
    rw [List.drop_drop]
  rw [prefixed, hlength, huint, List.drop_eq_getElem_cons hlt, hbyte, subarray,
    Nat.add_sub_cancel_left, hbehind, List.cons_append, List.nil_append, List.cons_append,
    List.take_append_drop]

/-- **A field behind its length, and what follows it, are determined by the bytes.** -/
theorem prefixed_append_inj {n : ℕ} {field field' rest rest' : Bytes}
    (hfit : field.length < 256 ^ n) (hfit' : field'.length < 256 ^ n)
    (h : prefixed n field ++ rest = prefixed n field' ++ rest') :
    field = field' ∧ rest = rest' := by
  have hlength : field.length = field'.length := by
    have hread := readUIntBE_prefixed [] rest hfit rfl
    have hread' := readUIntBE_prefixed [] rest' hfit' rfl
    rw [List.nil_append] at hread hread'
    rw [h, hread', Option.some.injEq] at hread
    exact hread.symm
  rw [prefixed, prefixed, hlength, List.append_assoc, List.append_assoc,
    List.append_cancel_left_eq] at h
  exact List.append_inj h hlength

end Proxinator.Lib
