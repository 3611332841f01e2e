import Proxinator.Lib.Cumulative
import Proxinator.Lib.Run
import Mathlib.Data.Rat.Floor

/-!
# The weighted balancer

A pool of candidates with weights, over exact rational numbers. The candidates and their
weights are two arrays side by side; each operation rebuilds the running totals of the
weights, relative to the smallest, in which `getRandomCandidate` looks a pointer up.

`Op` is an operation on a pool, and `Pool.step` its effect. Candidates are compared with
`===`, here the `==` of their type.
-/

namespace Proxinator.Balancer

open Lib

variable {α : Type*}

/-- `%` of numbers, whose quotient is truncated; none is `NaN`. -/
def remainder (a b : ℚ) : Option ℚ :=
  if b = 0 then none else some (a - b * (if 0 ≤ a / b then ⌊a / b⌋ else ⌈a / b⌉))

/-- `weight || 1`. -/
def weightOrOne : Option ℚ → ℚ
  | none => 1
  | some weight => if weight = 0 then 1 else weight

/-- A pool: its private arrays, and the fields that `calculateWeights` fills. -/
structure Pool (α : Type*) where
  candidates : List α
  weights : List ℚ
  /-- `_weights` -/
  weightsMap : List ℚ
  /-- `_weightMap` -/
  weightMap : List ℚ
  /-- `_max` -/
  max : ℚ
  deriving DecidableEq, Repr

namespace Pool

/-- An empty pool. -/
def new : Pool α := ⟨[], [], [], [], 0⟩

/-- `calculateWeights()`. -/
def calculateWeights (pool : Pool α) : Pool α :=
  let weightsMap :=
    match pool.weights.min? with
    -- `Math.min()` is `Infinity`, and there is nothing to divide by it
    | none => []
    | some min => pool.weights.map fun size => size / min
  let (pointer, weightMap) := weightsMap.foldl
    (fun (p : ℚ × List ℚ) weight => (p.1 + weight, p.2 ++ [p.1 + weight])) (0, [])
  { pool with weightsMap := weightsMap, weightMap := weightMap, max := pointer }

/-- `candidates.push(candidate)` and `weights.push(weight || 1)`. -/
def append (pool : Pool α) (candidate : α) (weight : Option ℚ) : Pool α :=
  { pool with
    candidates := pool.candidates ++ [candidate]
    weights := pool.weights ++ [weightOrOne weight] }

/-- `push(candidate, weight)`. -/
def push (pool : Pool α) (candidate : α) (weight : Option ℚ) : Pool α :=
  (pool.append candidate weight).calculateWeights

/-- `addMany(items)`. -/
def addMany (pool : Pool α) (items : List (α × Option ℚ)) : Pool α :=
  (items.foldl (fun pool item => pool.append item.1 item.2) pool).calculateWeights

/-- `delete(candidate)`. -/
def delete [BEq α] (pool : Pool α) (candidate : α) : Pool α :=
  match pool.candidates.idxOf? candidate with
  | none => pool
  | some index =>
    { pool with
      candidates := pool.candidates.take index ++ pool.candidates.drop (index + 1)
      weights := pool.weights.take index ++ pool.weights.drop (index + 1) }.calculateWeights

/-- `netPointer < weight`; a comparison with `NaN` or `undefined` fails. -/
def lt : Option ℚ → Option ℚ → Bool
  | some netPointer, some weight => netPointer < weight
  | _, _ => false

/-- `netPointer` of a seed, or of what `Math.random()` returns. -/
def netPointer (pool : Pool α) (random : ℚ) : Option ℚ → Option ℚ
  | none => some (random * pool.max)
  | some seed => remainder seed pool.max

/-- `getRandomCandidate(seed)`, where `random` is what `Math.random()` returns. -/
def getRandomCandidate (pool : Pool α) (random : ℚ) (seed : Option ℚ) : Option α :=
  let nets := pool.candidates.zipIdx.filter fun c =>
    lt (pool.netPointer random seed) pool.weightMap[c.2]?
  (nets.map Prod.fst)[0]?

/-- `getAllCandidates()`. -/
def getAllCandidates (pool : Pool α) : List α := pool.candidates

end Pool

/-- An operation on a pool. -/
inductive Op (α : Type*)
  | push (candidate : α) (weight : Option ℚ)
  | addMany (items : List (α × Option ℚ))
  | delete (candidate : α)
  deriving DecidableEq, Repr

/-- The effect of an operation. -/
def Pool.step [BEq α] (pool : Pool α) : Op α → Pool α
  | .push candidate weight => pool.push candidate weight
  | .addMany items => pool.addMany items
  | .delete candidate => pool.delete candidate

end Proxinator.Balancer
