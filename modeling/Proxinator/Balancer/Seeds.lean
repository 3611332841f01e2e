import Proxinator.Balancer.Selection
import Proxinator.Lib.Multiples
import Mathlib.Algebra.BigOperators.Ring.Finset

/-!
# Seeds in a row

A seed is reduced modulo the sum of the weights relative to the smallest, so a seed `s` picks
by where `m * s` lies modulo the sum, with `m` the smallest weight. As many seeds in a row as the
sum of integer weights hit the multiples of the common divisor of `m` and the sum, each equally
often; a candidate is picked as often as its weight exactly if that divides its weight.
-/

namespace Proxinator.Balancer

open Lib

variable {α : Type*}

namespace Pool

/-- The pool with its indices for candidates, so that what it picks tells which one. -/
def indexed (pool : Pool α) : Pool ℕ :=
  ⟨List.range pool.candidates.length, pool.weights, pool.weightsMap, pool.weightMap, pool.max⟩

/-- How often the candidate at an index is picked by as many seeds in a row. -/
def picks (pool : Pool α) (random : ℚ) (a count i : ℕ) : ℕ :=
  ((Finset.Ico a (a + count)).filter fun seed : ℕ =>
    pool.indexed.getRandomCandidate random (some (seed : ℚ)) = some i).card

/-- The candidates are picked as often as their weights by seeds in a row, as many as the sum of
the weights. -/
def SharesOut (pool : Pool α) (ws : List ℕ) : Prop :=
  ∀ (random : ℚ) (a i : ℕ) (hi : i < ws.length), pool.picks random a ws.sum i = ws[i]

/-! ## One seed -/

/-- The first candidate whose index passes a test. -/
theorem find?_zipIdx (p : ℕ → Bool) (candidates : List α) (k : ℕ) :
    ((candidates.zipIdx k).find? fun c => p c.2).map Prod.fst =
      ((List.range candidates.length).find? fun i => p (k + i)).bind fun i => candidates[i]? := by
  induction candidates generalizing k with
  | nil => rfl
  | cons c candidates ih =>
      rw [List.zipIdx_cons, List.length_cons, List.range_succ_eq_map, List.find?_cons,
        List.find?_cons]
      cases hp : p k with
      | true => simp
      | false =>
          have hnext : (p ∘ fun i => k + (i + 1)) = fun i => p (k + 1 + i) := by
            ext i
            simp [Nat.add_assoc, Nat.add_comm 1 i]
          simp only [ih (k + 1), List.find?_map, ← hnext, Option.bind_map]
          rfl

theorem netPointer_indexed (pool : Pool α) (random : ℚ) (seed : Option ℚ) :
    pool.indexed.netPointer random seed = pool.netPointer random seed := by
  cases seed <;> rfl

/-- What a pool picks is the candidate at the index that the indexed pool picks. -/
theorem getRandomCandidate_indexed (pool : Pool α) (random : ℚ) (seed : Option ℚ) :
    pool.getRandomCandidate random seed =
      (pool.indexed.getRandomCandidate random seed).bind fun i => pool.candidates[i]? := by
  rw [getRandomCandidate, getRandomCandidate, netPointer_indexed]
  generalize pool.netPointer random seed = netPointer
  simp only [← List.head?_eq_getElem?, List.head?_map, List.head?_filter]
  rw [find?_zipIdx fun key => lt netPointer pool.weightMap[key]?,
    find?_zipIdx fun key => lt netPointer pool.indexed.weightMap[key]?]
  simp only [indexed, List.length_range]
  cases hfind : (List.range pool.candidates.length).find? fun i =>
      lt netPointer pool.weightMap[0 + i]? with
  | none => rfl
  | some i =>
      have hi := List.mem_range.mp (List.mem_of_find?_eq_some hfind)
      simp [hi]

/-! ## Integer weights -/

/-- The indices with the weights. -/
def ofIndices (pairs : Pairs α) : Pairs ℕ := (List.range pairs.length).zip pairs.weights

theorem candidates_ofIndices (pairs : Pairs α) :
    (ofIndices pairs).map Prod.fst = List.range pairs.length :=
  List.map_fst_zip (by simp)

@[simp] theorem weights_ofIndices (pairs : Pairs α) : (ofIndices pairs).weights = pairs.weights :=
  List.map_snd_zip (by simp)

theorem indexed_ofPairs (pairs : Pairs α) : (ofPairs pairs).indexed = ofPairs (ofIndices pairs) := by
  rw [indexed, candidates_ofPairs, List.length_map]
  rw [ofPairs, ofPairs, candidates_ofIndices, weights_ofIndices]
  rfl

/-- Where an integer seed lies, relative to the smallest weight. -/
theorem mul_modulo {m : ℕ} (hm : 0 < m) (s n : ℕ) :
    (m : ℚ) * modulo (s : ℚ) ((n : ℚ) / m) = (m * s % n : ℕ) := by
  have hm' : (m : ℚ) ≠ 0 := by exact_mod_cast hm.ne'
  have hquotient : (s : ℚ) / ((n : ℚ) / m) = (m * s : ℕ) / (n : ℕ) := by
    rw [div_div_eq_mul_div, Nat.cast_mul, mul_comm]
  have hdiv : (n : ℚ) * (m * s / n : ℕ) + (m * s % n : ℕ) = (m : ℚ) * s := by
    exact_mod_cast Nat.div_add_mod (m * s) n
  rw [modulo, hquotient, Rat.floor_natCast_div_natCast, ← Int.natCast_div, Int.cast_natCast,
    mul_sub, ← hdiv, ← mul_assoc, mul_div_cancel₀ _ hm', add_sub_cancel_left]

/-- **Which candidate an integer seed picks.** -/
theorem getRandomCandidate_indexed_iff {pairs : Pairs α} {ws : List ℕ}
    (hws : pairs.weights = ws.map Nat.cast) (hpos : ∀ w ∈ ws, 0 < w) {m : ℕ}
    (hm : ws.min? = some m) (random : ℚ) (s i : ℕ) :
    (ofPairs pairs).indexed.getRandomCandidate random (some (s : ℚ)) = some i ↔
      (ws.take i).sum ≤ m * s % ws.sum ∧ m * s % ws.sum < (ws.take (i + 1)).sum := by
  have hm0 : 0 < m := hpos m (List.min?_mem hm)
  have hweights : (ofIndices pairs).weights = ws.map Nat.cast := by rw [weights_ofIndices, hws]
  have hpos' : ∀ w ∈ (ofIndices pairs).weights, 0 < w := by
    rw [hweights]
    intro w hw
    obtain ⟨w', hw', rfl⟩ := List.mem_map.mp hw
    exact_mod_cast hpos w' hw'
  have hleast : IsLeast {w | w ∈ (ofIndices pairs).weights} (m : ℚ) := by
    rw [hweights]
    refine ⟨List.mem_map_of_mem (List.min?_mem hm), ?_⟩
    intro w hw
    obtain ⟨w', hw', rfl⟩ := List.mem_map.mp hw
    exact_mod_cast (List.min?_eq_some_iff.mp hm).2 w' hw'
  have howns : ∀ j, Owns (ofIndices pairs).weights
      (m * modulo (s : ℚ) ((ofIndices pairs).weights.sum / m)) j ↔
        (ws.take j).sum ≤ m * s % ws.sum ∧ m * s % ws.sum < (ws.take (j + 1)).sum := by
    intro j
    rw [Owns, hweights, ← Nat.cast_list_sum, mul_modulo hm0, ← List.map_take, ← List.map_take,
      ← Nat.cast_list_sum, ← Nat.cast_list_sum, Nat.cast_le, Nat.cast_lt]
  obtain ⟨i', hi', hown, hunique, hpicks⟩ :=
    (selection_ofPairs hpos').selects m hleast random s (Nat.cast_nonneg s)
  have hindex : (ofIndices pairs)[i'].1 = i' := by simp [ofIndices]
  rw [indexed_ofPairs, hpicks, hindex, Option.some_inj, ← howns]
  constructor
  · intro h
    exact h ▸ hown
  · intro h
    exact (hunique i h).symm

/-! ## Seeds in a row -/

/-- A candidate is picked as often as its weight exactly if the common divisor of the smallest
weight and the sum divides its weight. -/
theorem picks_iff [BEq α] (ops : List (Op α)) (ws : List ℕ)
    (hws : (run step new ops).weights = ws.map Nat.cast) (hpos : ∀ w ∈ ws, 0 < w) {m : ℕ}
    (hm : ws.min? = some m) (random : ℚ) (a : ℕ) {i : ℕ} (hi : i < ws.length) :
    (run step new ops).picks random a ws.sum i = ws[i] ↔ m.gcd ws.sum ∣ ws[i] := by
  have hrefines : run step new ops = ofPairs (run Pairs.step [] ops) := run_eq_ofPairs ops []
  rw [hrefines] at hws ⊢
  simp only [picks, getRandomCandidate_indexed_iff hws hpos hm,
    List.sum_take_succ ws i hi]
  have hsum : 0 < ws.sum := (hpos m (List.min?_mem hm)).trans_le
    (List.single_le_sum (fun _ _ => Nat.zero_le _) m (List.min?_mem hm))
  apply card_filter_mul_mod_eq_iff m a hsum
  rw [← List.sum_take_succ ws i hi]
  exact (List.take_sublist (i + 1) ws).sum_le_sum fun w _ => Nat.zero_le w

/-- **When seeds in a row are shared out by weight**: to the candidates whose weights the common
divisor of the smallest weight and the sum divides, and so to all if it divides all. -/
theorem sharesOut_iff [BEq α] (ops : List (Op α)) (ws : List ℕ)
    (hws : (run step new ops).weights = ws.map Nat.cast) (hpos : ∀ w ∈ ws, 0 < w) (m : ℕ)
    (hm : ws.min? = some m) :
    (∀ (random : ℚ) (a i : ℕ) (hi : i < ws.length),
      (run step new ops).picks random a ws.sum i = ws[i] ↔ m.gcd ws.sum ∣ ws[i]) ∧
    ((run step new ops).SharesOut ws ↔ ∀ w ∈ ws, m.gcd ws.sum ∣ w) := by
  have hpicks := fun random a i hi => picks_iff ops ws hws hpos hm random a (i := i) hi
  refine ⟨hpicks, ?_, ?_⟩
  · intro h w hw
    obtain ⟨i, hi, rfl⟩ := List.mem_iff_getElem.mp hw
    exact (hpicks 0 0 i hi).mp (h 0 0 i hi)
  · intro h random a i hi
    exact (hpicks random a i hi).mpr (h _ (List.getElem_mem hi))

/-- Two candidates that are picked twice and four times by any six seeds in a row. -/
theorem sharesOut_two :
    (run step new [Op.push "a" (some 2), Op.push "b" (some 4)]).SharesOut [2, 4] :=
  (sharesOut_iff [Op.push "a" (some 2), Op.push "b" (some 4)] [2, 4] (by decide +kernel)
    (by decide) 2 rfl).2.mpr (by decide)

/-- **Three candidates of weights 2, 3 and 3.** The second is picked four times by eight seeds in a
row. -/
theorem not_sharesOut_three :
    let pool := run step new [Op.push "a" (some 2), Op.push "b" (some 3), Op.push "c" (some 3)]
    pool.weights = [2, 3, 3].map Nat.cast ∧ pool.picks 0 0 8 1 = 4 ∧ ¬ pool.SharesOut [2, 3, 3] := by
  intro pool
  have hpicks : pool.picks 0 0 8 1 = 4 := by decide +kernel
  refine ⟨by decide +kernel, hpicks, fun h => ?_⟩
  have hshare := h 0 0 1 (by decide)
  rw [show [2, 3, 3].sum = 8 from rfl, hpicks] at hshare
  cases hshare

end Pool

end Proxinator.Balancer
