import Mathlib.Data.List.TakeDrop
import Mathlib.Data.List.Infix
import Mathlib.Data.Nat.Find
import Mathlib.Order.Bounds.Basic

/-!
# Streams that arrive in segments

A stream is a list, and a receiver sees it as consecutive non-empty chunks: a
`Cut`. After `k` chunks it has `received` a prefix of the stream. A test of the
bytes received so far is `Stable` when later bytes do not undo it; such a test has
one point from which on it holds, whatever the cut (`Stable.take_iff`).
-/

namespace Proxinator.Lib

variable {α : Type*}

/-- A prefix of a concatenation lies in the first part or contains it. -/
theorem prefix_append_cases {p a b : List α} (h : p <+: a ++ b) :
    (p.length < a.length → p <+: a) ∧ (a.length ≤ p.length → ∃ q, p = a ++ q ∧ q <+: b) := by
  constructor
  · intro hlt
    exact List.prefix_of_prefix_length_le h (List.prefix_append a b) (le_of_lt hlt)
  · intro hle
    obtain ⟨q, rfl⟩ := List.prefix_of_prefix_length_le (List.prefix_append a b) h hle
    exact ⟨q, rfl, (List.prefix_append_right_inj a).mp h⟩

/-! ## Cuts -/

/-- The chunks of a stream: non-empty, in order, nothing lost or added. -/
structure Cut (stream : List α) where
  chunks : List (List α)
  flatten_eq : chunks.flatten = stream
  nonempty : [] ∉ chunks

/-- What has been received after `k` chunks. -/
def received (chunks : List (List α)) (k : ℕ) : List α := (chunks.take k).flatten

@[simp] theorem received_zero (chunks : List (List α)) : received chunks 0 = [] := rfl

theorem received_succ {chunks : List (List α)} {k : ℕ} (hk : k < chunks.length) :
    received chunks (k + 1) = received chunks k ++ chunks[k] := by
  rw [received, received, ← List.take_concat_get' chunks k hk, List.flatten_append]
  simp

/-- What has been received and what has not make up the stream. -/
theorem received_append_drop (chunks : List (List α)) (k : ℕ) :
    received chunks k ++ (chunks.drop k).flatten = chunks.flatten := by
  rw [received, ← List.flatten_append, List.take_append_drop]

theorem received_eq_take (chunks : List (List α)) (k : ℕ) :
    received chunks k = chunks.flatten.take (received chunks k).length := by
  conv_rhs => rw [← received_append_drop chunks k]
  rw [List.take_left]

theorem length_received_le (chunks : List (List α)) (k : ℕ) :
    (received chunks k).length ≤ chunks.flatten.length := by
  rw [← received_append_drop chunks k, List.length_append]
  exact Nat.le_add_right _ _

/-- More chunks, more bytes. -/
theorem length_received_mono (chunks : List (List α)) {j k : ℕ} (h : j ≤ k) :
    (received chunks j).length ≤ (received chunks k).length := by
  obtain ⟨d, rfl⟩ := Nat.exists_eq_add_of_le h
  rw [received, received, List.take_add, List.flatten_append, List.length_append]
  exact Nat.le_add_right _ _

/-- All has been received after the last chunk. -/
theorem received_of_le {chunks : List (List α)} {k : ℕ} (h : chunks.length ≤ k) :
    received chunks k = chunks.flatten := by
  rw [received, List.take_of_length_le h]

theorem Cut.length_received_le {stream : List α} (cut : Cut stream) (k : ℕ) :
    (received cut.chunks k).length ≤ stream.length :=
  (Lib.length_received_le cut.chunks k).trans_eq (congrArg List.length cut.flatten_eq)

theorem Cut.received_eq_take {stream : List α} (cut : Cut stream) (k : ℕ) :
    received cut.chunks k = stream.take (received cut.chunks k).length :=
  (Lib.received_eq_take cut.chunks k).trans (congrArg (List.take _) cut.flatten_eq)

/-- **One chunk is the first with which a length has been received.** -/
theorem Cut.exists_reached {stream : List α} (cut : Cut stream) {L : ℕ} (hpos : 0 < L)
    (hL : L ≤ stream.length) :
    ∃ j, ∀ i, L ≤ (received cut.chunks i).length ↔ j < i := by
  classical
  have hex : ∃ m, L ≤ (received cut.chunks m).length :=
    ⟨cut.chunks.length, by rwa [received_of_le le_rfl, cut.flatten_eq]⟩
  obtain ⟨j, hj⟩ : ∃ j, Nat.find hex = j + 1 := by
    refine Nat.exists_eq_succ_of_ne_zero fun hzero => ?_
    have hreached := Nat.find_spec hex
    simp only [hzero, received_zero, List.length_nil] at hreached
    omega
  refine ⟨j, fun i => ⟨fun hi => ?_, fun hi => ?_⟩⟩
  · have hle : j + 1 ≤ i := hj ▸ Nat.find_min' hex hi
    omega
  · have hreached : L ≤ (received cut.chunks (j + 1)).length := hj ▸ Nat.find_spec hex
    exact hreached.trans (length_received_mono cut.chunks hi)

/-! ## Stable tests -/

/-- A test of the bytes received so far that no later byte undoes. -/
def Stable (P : List α → Prop) : Prop := ∀ b s, P b → P (b ++ s)

/-- The length of the shortest prefix of `stream` that passes the test. -/
def ShortestPrefix (P : List α → Prop) (stream : List α) (L : ℕ) : Prop :=
  IsLeast {n | n ≤ stream.length ∧ P (stream.take n)} L

/-- **A stable test holds of exactly the prefixes from one length on.** -/
theorem Stable.take_iff {P : List α → Prop} (hP : Stable P) {stream : List α} {L n : ℕ}
    (hL : ShortestPrefix P stream L) (hn : n ≤ stream.length) :
    P (stream.take n) ↔ L ≤ n := by
  constructor
  · intro h
    exact hL.2 ⟨hn, h⟩
  · intro hle
    have hsplit : stream.take n = stream.take L ++ (stream.drop L).take (n - L) := by
      rw [← List.take_add]
      congr 1
      omega
    rw [hsplit]
    exact hP _ _ hL.1.2

end Proxinator.Lib
