import Mathlib.Data.Int.CardIntervalMod
import Mathlib.Data.Nat.Periodic
import Mathlib.Data.Int.GCD

/-!
# Multiples modulo a number

Multiplied by `m` and reduced modulo `n`, the numbers of a range of length `n` hit each multiple
of `m.gcd n` below `n` equally often, and nothing else. So they share an interval of length `w`
out exactly if its length is such a multiple.
-/

namespace Proxinator.Lib

open Finset

/-- The numbers that hit a residue are one residue class. -/
theorem exists_mul_mod_iff {m n t : ℕ} (ht : t < n) (hdvd : m.gcd n ∣ t) :
    ∃ s₀, ∀ s, m * s % n = t ↔ s ≡ s₀ [MOD n / m.gcd n] := by
  obtain ⟨t', rfl⟩ := hdvd
  have hgcd : 0 < m.gcd n := Nat.gcd_pos_of_pos_right m (by omega)
  have hm : m.gcd n * (m / m.gcd n) = m := Nat.mul_div_cancel' (Nat.gcd_dvd_left m n)
  have hn : m.gcd n * (n / m.gcd n) = n := Nat.mul_div_cancel' (Nat.gcd_dvd_right m n)
  have hcoprime : (m / m.gcd n).Coprime (n / m.gcd n) := Nat.coprime_div_gcd_div_gcd hgcd
  have hpos : 0 < n / m.gcd n := Nat.div_gcd_pos_of_pos_right m (by omega)
  obtain ⟨s₀, -, hs₀⟩ := Nat.exists_mul_mod_eq_of_coprime t' hcoprime hpos.ne'
  refine ⟨s₀, fun s => ?_⟩
  calc m * s % n = m.gcd n * t'
      ↔ m * s ≡ m.gcd n * t' [MOD n] := by rw [Nat.ModEq, Nat.mod_eq_of_lt ht]
    _ ↔ m.gcd n * (m / m.gcd n * s) ≡ m.gcd n * t' [MOD m.gcd n * (n / m.gcd n)] := by
      rw [← mul_assoc, hm, hn]
    _ ↔ m / m.gcd n * s ≡ t' [MOD n / m.gcd n] := Nat.ModEq.mul_left_cancel_iff' hgcd.ne'
    _ ↔ m / m.gcd n * s ≡ m / m.gcd n * s₀ [MOD n / m.gcd n] := by
      rw [Nat.ModEq, Nat.ModEq, hs₀]
    _ ↔ s ≡ s₀ [MOD n / m.gcd n] :=
      ⟨Nat.ModEq.cancel_left_of_coprime hcoprime.symm, Nat.ModEq.mul_left _⟩

/-- **How often a residue is hit.** -/
theorem card_filter_mul_mod (m a : ℕ) {n t : ℕ} (ht : t < n) :
    #{s ∈ Ico a (a + n) | m * s % n = t} = if m.gcd n ∣ t then m.gcd n else 0 := by
  split_ifs with hdvd
  · have hperiodic : Function.Periodic (fun s => m * s % n = t) n := by
      intro s
      simp [mul_add]
    obtain ⟨s₀, hclass⟩ := exists_mul_mod_iff ht hdvd
    have hpos : 0 < n / m.gcd n := Nat.div_gcd_pos_of_pos_right m (by omega)
    have hdiv : n / m.gcd n ∣ n := Nat.div_dvd_of_dvd (Nat.gcd_dvd_right m n)
    rw [Nat.filter_Ico_card_eq_of_periodic a n _ hperiodic]
    simp only [hclass]
    rw [Nat.count_modEq_card _ hpos, Nat.mod_eq_zero_of_dvd hdiv,
      Nat.div_div_self (Nat.gcd_dvd_right m n) (by omega)]
    simp
  · apply Finset.card_eq_zero.mpr
    apply Finset.filter_eq_empty_iff.mpr
    intro s _ hs
    apply hdvd
    rw [← hs]
    exact (Nat.dvd_mod_iff (Nat.gcd_dvd_right m n)).mpr ((Nat.gcd_dvd_left m n).mul_right s)

/-- **How often an interval is hit.** -/
theorem card_filter_mul_mod_mem (m a : ℕ) {n p q : ℕ} (hq : q ≤ n) :
    #{s ∈ Ico a (a + n) | p ≤ m * s % n ∧ m * s % n < q} =
      m.gcd n * #{t ∈ Ico p q | m.gcd n ∣ t} := by
  have hfiber : ∀ t ∈ Ico p q,
      #{s ∈ {s ∈ Ico a (a + n) | p ≤ m * s % n ∧ m * s % n < q} | m * s % n = t} =
        if m.gcd n ∣ t then m.gcd n else 0 := by
    intro t ht
    obtain ⟨hp, hlt⟩ := Finset.mem_Ico.mp ht
    rw [← card_filter_mul_mod m a (hlt.trans_le hq), Finset.filter_filter]
    congr 1
    apply Finset.filter_congr
    omega
  rw [Finset.card_eq_sum_card_fiberwise (f := fun s => m * s % n) (t := Ico p q)
    (fun s hs => by simpa using (Finset.mem_filter.mp hs).2), Finset.sum_congr rfl hfiber,
    ← Finset.sum_filter, Finset.sum_const, smul_eq_mul, mul_comm]

/-- The multiples in an interval whose length is one. -/
theorem mul_card_filter_dvd {g w : ℕ} (hg : 0 < g) (hw : g ∣ w) (p : ℕ) :
    g * #{t ∈ Ico p (p + w) | g ∣ t} = w := by
  have hperiodic : Function.Periodic (fun t => g ∣ t) w := by
    intro t
    exact propext (Nat.dvd_add_left hw)
  have hzero : ∀ t, g ∣ t ↔ t ≡ 0 [MOD g] := fun t => Nat.modEq_zero_iff_dvd.symm
  rw [Nat.filter_Ico_card_eq_of_periodic p w _ hperiodic]
  simp only [hzero]
  rw [Nat.count_modEq_card _ hg, Nat.mod_eq_zero_of_dvd hw]
  simpa using Nat.mul_div_cancel' hw

/-- **An interval is hit as often as it is long exactly if its length is a multiple.** -/
theorem card_filter_mul_mod_eq_iff (m a : ℕ) {n p w : ℕ} (hn : 0 < n) (hw : p + w ≤ n) :
    #{s ∈ Ico a (a + n) | p ≤ m * s % n ∧ m * s % n < p + w} = w ↔ m.gcd n ∣ w := by
  rw [card_filter_mul_mod_mem m a hw]
  constructor
  · intro h
    rw [← h]
    exact Nat.dvd_mul_right _ _
  · intro hdvd
    exact mul_card_filter_dvd (Nat.gcd_pos_of_pos_right m hn) hdvd p

end Proxinator.Lib
