import Proxinator.Balancer

/-!
# The balancer as a weighted list

What the balancer is for: an ordered list of candidates with their weights, of which a
pointer selects one with a share that is its weight. A pool is at all times the pool of such
a list (`Pool.ofPairs`), with which its two arrays and the running totals are determined, so
the operations refine those on the list; and looking a pointer up in the running totals is
looking up the interval that it lies in.

## Main results

* `Pool.run_eq_ofPairs` — the pool refines the list over every sequence of operations.
* `Pool.selection_ofPairs` — which candidate a seed selects, and how long its interval is.
* `Pool.balancer` — both, for every sequence of operations.
-/

namespace Proxinator.Balancer

open Lib

variable {α : Type*}

/-- The candidates with their weights, in order. -/
abbrev Pairs (α : Type*) := List (α × ℚ)

namespace Pairs

/-- The weights of a list of pairs. -/
def weights (pairs : Pairs α) : List ℚ := pairs.map Prod.snd

@[simp] theorem length_weights (pairs : Pairs α) : pairs.weights.length = pairs.length :=
  List.length_map _

/-- An operation on the list: a push appends a pair and a deletion removes the first pair
of its candidate. -/
def step [BEq α] (pairs : Pairs α) : Op α → Pairs α
  | .push candidate weight => pairs ++ [(candidate, weightOrOne weight)]
  | .addMany items => pairs ++ items.map fun item => (item.1, weightOrOne item.2)
  | .delete candidate => pairs.eraseP fun pair => pair.1 == candidate

end Pairs

/-- Every weight that the operation gives is positive. -/
def Op.Positive : Op α → Prop
  | .push _ weight => ∀ w ∈ weight, 0 < w
  | .addMany items => ∀ item ∈ items, ∀ w ∈ item.2, 0 < w
  | .delete _ => True

theorem weightOrOne_pos {weight : Option ℚ} (h : ∀ w ∈ weight, 0 < w) :
    0 < weightOrOne weight := by
  cases weight with
  | none => exact one_pos
  | some w =>
      have hw : 0 < w := h w rfl
      rwa [weightOrOne, if_neg hw.ne']

/-- Weights stay positive. -/
theorem Pairs.step_pos [BEq α] {pairs : Pairs α} {op : Op α} (hop : op.Positive)
    (hpairs : ∀ w ∈ pairs.weights, 0 < w) : ∀ w ∈ (pairs.step op).weights, 0 < w := by
  intro w hw
  cases op with
  | push candidate weight =>
      rw [step, weights, List.map_append] at hw
      rcases List.mem_append.mp hw with hw | hw
      · exact hpairs w hw
      · rw [List.mem_singleton.mp hw]
        exact weightOrOne_pos hop
  | addMany items =>
      rw [step, weights, List.map_append] at hw
      rcases List.mem_append.mp hw with hw | hw
      · exact hpairs w hw
      · rw [List.map_map] at hw
        obtain ⟨item, hitem, rfl⟩ := List.mem_map.mp hw
        exact weightOrOne_pos (hop item hitem)
  | delete candidate =>
      obtain ⟨pair, hpair, rfl⟩ := List.mem_map.mp hw
      exact hpairs _ (List.mem_map.mpr ⟨pair, List.mem_of_mem_eraseP hpair, rfl⟩)

/-! ## The pool of a list -/

namespace Pool

/-- The pool that holds the pairs. -/
def ofPairs (pairs : Pairs α) : Pool α :=
  calculateWeights ⟨pairs.map Prod.fst, pairs.weights, [], [], 0⟩

/-- The distribution depends on the weights alone. -/
theorem calculateWeights_eq_ofPairs {pool : Pool α} {pairs : Pairs α}
    (hcandidates : pool.candidates = pairs.map Prod.fst) (hweights : pool.weights = pairs.weights) :
    pool.calculateWeights = ofPairs pairs := by
  rw [calculateWeights, ofPairs, calculateWeights, hcandidates, hweights]

@[simp] theorem candidates_ofPairs (pairs : Pairs α) :
    (ofPairs pairs).candidates = pairs.map Prod.fst := rfl

@[simp] theorem weights_ofPairs (pairs : Pairs α) : (ofPairs pairs).weights = pairs.weights := rfl

theorem push_ofPairs (pairs : Pairs α) (candidate : α) (weight : Option ℚ) :
    (ofPairs pairs).push candidate weight =
      ofPairs (pairs ++ [(candidate, weightOrOne weight)]) := by
  apply calculateWeights_eq_ofPairs
  · simp [append]
  · simp [append, Pairs.weights]

/-- Pushing many candidates one by one. -/
theorem foldl_push_ofPairs (pairs : Pairs α) (items : List (α × Option ℚ)) :
    items.foldl (fun pool item => pool.push item.1 item.2) (ofPairs pairs) =
      ofPairs (pairs ++ items.map fun item => (item.1, weightOrOne item.2)) := by
  induction items generalizing pairs with
  | nil => simp
  | cons item items ih =>
      rw [List.foldl_cons, push_ofPairs, ih]
      simp

theorem addMany_ofPairs (pairs : Pairs α) (items : List (α × Option ℚ)) :
    (ofPairs pairs).addMany items =
      ofPairs (pairs ++ items.map fun item => (item.1, weightOrOne item.2)) := by
  have happend : ∀ (items : List (α × Option ℚ)) (pool : Pool α),
      (items.foldl (fun pool item => pool.append item.1 item.2) pool).candidates =
          pool.candidates ++ items.map Prod.fst ∧
        (items.foldl (fun pool item => pool.append item.1 item.2) pool).weights =
          pool.weights ++ items.map fun item => weightOrOne item.2 := by
    intro items
    induction items with
    | nil => simp
    | cons item items ih =>
        intro pool
        obtain ⟨hcandidates, hweights⟩ := ih (pool.append item.1 item.2)
        simp only [List.foldl_cons, hcandidates, hweights]
        simp [append]
  apply calculateWeights_eq_ofPairs
  · rw [(happend items _).1]
    simp [Function.comp_def]
  · rw [(happend items _).2]
    simp [Pairs.weights, Function.comp_def]

/-- A deletion takes the same index out of both arrays. -/
theorem delete_ofPairs [BEq α] (pairs : Pairs α) (candidate : α) :
    (ofPairs pairs).delete candidate =
      ofPairs (pairs.eraseP fun pair => pair.1 == candidate) := by
  have hsame : ((fun c => c == candidate) ∘ Prod.fst : α × ℚ → Bool) =
      fun pair => pair.1 == candidate := rfl
  rw [delete, candidates_ofPairs, List.idxOf?, List.findIdx?_map, List.eraseP_eq_eraseIdx, hsame]
  cases pairs.findIdx? fun pair => pair.1 == candidate with
  | none => rfl
  | some index =>
      apply calculateWeights_eq_ofPairs
      · simp [List.eraseIdx_eq_take_drop_succ, List.map_take, List.map_drop]
      · simp [List.eraseIdx_eq_take_drop_succ, Pairs.weights, List.map_take, List.map_drop]

/-- **Every operation on the pool is the one on its pairs.** -/
theorem step_ofPairs [BEq α] (pairs : Pairs α) (op : Op α) :
    (ofPairs pairs).step op = ofPairs (pairs.step op) := by
  cases op with
  | push candidate weight => exact push_ofPairs pairs candidate weight
  | addMany items => exact addMany_ofPairs pairs items
  | delete candidate => exact delete_ofPairs pairs candidate

/-- **The pool refines the list** over every sequence of operations. -/
theorem run_eq_ofPairs [BEq α] (ops : List (Op α)) (pairs : Pairs α) :
    run step (ofPairs pairs) ops = ofPairs (run Pairs.step pairs ops) := by
  induction ops generalizing pairs with
  | nil => rfl
  | cons op ops ih => rw [run_cons, run_cons, step_ofPairs, ih]

/-! ## Selection -/

/-- What `calculateWeights` leaves: the running totals of the weights relative to the
smallest. -/
theorem distribution_ofPairs {pairs : Pairs α} {m : ℚ} (hm : pairs.weights.min? = some m) :
    (ofPairs pairs).weightMap = totals (pairs.weights.map (· / m)) ∧
      (ofPairs pairs).max = pairs.weights.sum / m := by
  rw [ofPairs, calculateWeights]
  simp only [hm, foldl_totals]
  exact ⟨trivial, sum_map_div _ m⟩

/-- The remainder of a seed that is not negative. -/
theorem remainder_eq {a b : ℚ} (ha : 0 ≤ a) (hb : 0 < b) : remainder a b = some (modulo a b) := by
  rw [remainder, if_neg hb.ne', if_pos (div_nonneg ha hb.le), modulo]

section

variable {pairs : Pairs α} {m : ℚ}

/-- **A pointer selects the candidate in whose interval it lies.** -/
theorem getRandomCandidate_eq (hpos : ∀ w ∈ pairs.weights, 0 < w)
    (hm : pairs.weights.min? = some m) {random x : ℚ} {seed : Option ℚ}
    (hx : (ofPairs pairs).netPointer random seed = some x) {i : ℕ} (hi : i < pairs.length)
    (h : Owns pairs.weights (m * x) i) :
    (ofPairs pairs).getRandomCandidate random seed = some pairs[i].1 := by
  have hm0 : 0 < m := hpos m (List.min?_mem hm)
  have hwsnonneg : ∀ w ∈ pairs.weights.map (· / m), 0 ≤ w := by
    intro w hw
    obtain ⟨w', hw', rfl⟩ := List.mem_map.mp hw
    exact div_nonneg (hpos w' hw').le hm0.le
  have hfind := find?_totals hwsnonneg ((owns_map_div hm0).mpr h) (pairs.map Prod.fst) (by simp)
    (fun c => lt (some x) (totals (pairs.weights.map (· / m)))[c.2]?) (by
      intro a j hj
      rw [getElem?_totals _ hj]
      rfl)
  rw [getRandomCandidate, hx, (distribution_ofPairs hm).1, candidates_ofPairs,
    ← List.head?_eq_getElem?, List.head?_map, List.head?_filter, hfind]
  simp

/-- The pointer of a seed lies within the range. -/
theorem exists_selected (hpos : ∀ w ∈ pairs.weights, 0 < w) (hm : pairs.weights.min? = some m)
    {x : ℚ} (hx0 : 0 ≤ x) (hx : x < pairs.weights.sum / m) :
    ∃ i, i < pairs.length ∧ Owns pairs.weights (m * x) i := by
  have hm0 : 0 < m := hpos m (List.min?_mem hm)
  have hsum : m * x < pairs.weights.sum := (lt_div_iff₀' hm0).mp hx
  obtain ⟨i, hi, hown⟩ := exists_owns (mul_nonneg hm0.le hx0) hsum
  exact ⟨i, by simpa using hi, hown⟩

/-- The range of a pool that is not empty. -/
theorem range_pos (hpos : ∀ w ∈ pairs.weights, 0 < w) (hm : pairs.weights.min? = some m) :
    0 < pairs.weights.sum / m := by
  have hm0 : 0 < m := hpos m (List.min?_mem hm)
  have hle : m ≤ pairs.weights.sum :=
    List.single_le_sum (fun w hw => (hpos w hw).le) m (List.min?_mem hm)
  exact div_pos (hm0.trans_le hle) hm0

end

/-- **Exact proportional selection** from the pairs, by a pool. -/
structure Selection (pool : Pool α) (pairs : Pairs α) : Prop where
  /-- A seed selects the one candidate in whose interval it lies, relative to the smallest
  weight. -/
  selects : ∀ m, IsLeast {w | w ∈ pairs.weights} m → ∀ random s, 0 ≤ s →
    ∃ i, ∃ hi : i < pairs.length,
      Owns pairs.weights (m * modulo s (pairs.weights.sum / m)) i ∧
      (∀ j, Owns pairs.weights (m * modulo s (pairs.weights.sum / m)) j → j = i) ∧
      pool.getRandomCandidate random (some s) = some pairs[i].1
  /-- In a range of the length of the sum, each candidate owns an interval of the length of its
  weight, both relative to the smallest weight. -/
  shares : ∀ m, IsLeast {w | w ∈ pairs.weights} m → ∀ i, ∀ hi : i < pairs.length,
    {p | 0 ≤ p ∧ p < pairs.weights.sum / m ∧
        Owns pairs.weights (m * modulo p (pairs.weights.sum / m)) i} =
      Set.Ico ((pairs.weights.take i).sum / m) ((pairs.weights.take (i + 1)).sum / m) ∧
    (pairs.weights.take (i + 1)).sum / m - (pairs.weights.take i).sum / m = pairs[i].2 / m
  /-- Nothing is selected exactly when there is nothing. -/
  undefined : ∀ random, 0 ≤ random → random < 1 → ∀ seed : Option ℚ, (∀ s ∈ seed, 0 ≤ s) →
    (pool.getRandomCandidate random seed = none ↔ pairs = [])

theorem selection_ofPairs {pairs : Pairs α} (hpos : ∀ w ∈ pairs.weights, 0 < w) :
    (ofPairs pairs).Selection pairs := by
  have hleast : ∀ {m}, IsLeast {w | w ∈ pairs.weights} m → pairs.weights.min? = some m := by
    intro m hm
    exact List.min?_eq_some_iff.mpr ⟨hm.1, fun w hw => hm.2 hw⟩
  have hnonneg : ∀ w ∈ pairs.weights, 0 ≤ w := fun w hw => (hpos w hw).le
  constructor
  · intro m hm random s hs
    have hrange := range_pos hpos (hleast hm)
    obtain ⟨i, hi, hown⟩ :=
      exists_selected hpos (hleast hm) (modulo_nonneg s hrange) (modulo_lt s hrange)
    refine ⟨i, hi, hown, fun j hj => hj.unique hnonneg hown, ?_⟩
    apply getRandomCandidate_eq hpos (hleast hm) ?_ hi hown
    rw [netPointer, (distribution_ofPairs (hleast hm)).2, remainder_eq hs hrange]
  · intro m hm i hi
    have hm0 : 0 < m := hpos m hm.1
    constructor
    · ext p
      rw [Set.mem_Ico, div_le_iff₀' hm0, lt_div_iff₀' hm0]
      constructor
      · rintro ⟨hp0, hp, hown⟩
        rwa [modulo_eq_self hp0 hp] at hown
      · intro hown
        have hp0 : 0 ≤ p := by
          have hsum : 0 ≤ m * p :=
            (List.sum_nonneg fun w hw => hnonneg w (List.mem_of_mem_take hw)).trans hown.1
          exact nonneg_of_mul_nonneg_right hsum hm0
        have hp : p < pairs.weights.sum / m := by
          rw [lt_div_iff₀' hm0]
          refine hown.2.trans_le ?_
          have hle := sum_take_le hnonneg (Nat.succ_le_of_lt (pairs.length_weights.symm ▸ hi))
          rwa [List.take_length] at hle
        refine ⟨hp0, hp, ?_⟩
        rwa [modulo_eq_self hp0 hp]
    · rw [List.sum_take_succ _ i (by simpa using hi), ← sub_div, add_sub_cancel_left]
      simp [Pairs.weights]
  · intro random hrandom0 hrandom seed hseed
    constructor
    · intro hnone
      by_contra hne
      obtain ⟨m, hm⟩ : ∃ m, pairs.weights.min? = some m := by
        apply Option.ne_none_iff_exists'.mp
        simpa [Pairs.weights] using hne
      have hrange := range_pos hpos hm
      obtain ⟨x, hx0, hxrange, hx⟩ : ∃ x, 0 ≤ x ∧ x < pairs.weights.sum / m ∧
          (ofPairs pairs).netPointer random seed = some x := by
        cases seed with
        | none =>
            refine ⟨random * (pairs.weights.sum / m), mul_nonneg hrandom0 hrange.le,
              mul_lt_of_lt_one_left hrange hrandom, ?_⟩
            rw [netPointer, (distribution_ofPairs hm).2]
        | some s =>
            refine ⟨modulo s (pairs.weights.sum / m), modulo_nonneg s hrange,
              modulo_lt s hrange, ?_⟩
            rw [netPointer, (distribution_ofPairs hm).2, remainder_eq (hseed s rfl) hrange]
      obtain ⟨i, hi, hown⟩ := exists_selected hpos hm hx0 hxrange
      rw [getRandomCandidate_eq hpos hm hx hi hown] at hnone
      cases hnone
    · rintro rfl
      rfl

/-- **The balancer refines a weighted list with exact proportional selection**, over every
sequence of operations whose weights are positive or omitted. -/
theorem balancer [BEq α] (ops : List (Op α)) (hops : ∀ op ∈ ops, op.Positive) :
    run step new ops = ofPairs (run Pairs.step [] ops) ∧
      (run step new ops).getAllCandidates = (run Pairs.step [] ops).map Prod.fst ∧
      (run step new ops).weights = (run Pairs.step [] ops).map Prod.snd ∧
      (∀ items, (run step new ops).addMany items =
        items.foldl (fun pool item => pool.push item.1 item.2) (run step new ops)) ∧
      (run step new ops).Selection (run Pairs.step [] ops) := by
  have hrefines : run step new ops = ofPairs (run Pairs.step [] ops) := run_eq_ofPairs ops []
  have hpos : ∀ w ∈ (run Pairs.step [] ops).weights, 0 < w := by
    have halong : Along Pairs.step (fun _ op => op.Positive) ([] : Pairs α) ops :=
      Along.of_forall fun op hop _ => hops op hop
    exact halong.invariant (P := fun pairs : Pairs α => ∀ w ∈ pairs.weights, 0 < w)
      (fun pairs op hop hpairs => Pairs.step_pos hop hpairs) (by simp [Pairs.weights])
  rw [hrefines]
  refine ⟨rfl, rfl, rfl, ?_, selection_ofPairs hpos⟩
  intro items
  rw [addMany_ofPairs, foldl_push_ofPairs]

/-- A candidate that is pushed twice, and deleted once. -/
def pushedTwice : List (Op String) :=
  [.push "a" (some 2), .addMany [("b", none), ("a", some 3)], .delete "a"]

theorem balancer_pushedTwice :
    (run step new pushedTwice).Selection (run Pairs.step [] pushedTwice) :=
  (balancer pushedTwice (by
    intro op hop
    simp only [pushedTwice, List.mem_cons, List.not_mem_nil, or_false] at hop
    rcases hop with rfl | rfl | rfl <;> simp [Op.Positive])).2.2.2.2

end Pool

end Proxinator.Balancer
