/-
# Choosing by weight

An entry is chosen with probability proportional to its weight by inverting the distribution
function: the first entry whose prefix sum exceeds `u * total`.  In exact arithmetic there always
is one.  In rounded arithmetic `u * total` can reach the total; then the last entry with a
positive weight is taken, and if there is none (a weight is not a number) the last entry.

Weights come with what they weigh, so a choice hands back the entry itself.
-/
import LargeNeighbourhood.Random.Draw

namespace LargeNeighbourhood

namespace Sampling

variable {K α : Type} [Scalar K]

/-- The sum of the weights from the left; the first negative one stops it. -/
def total : K → List (K × α) → Except (Fault K) K
  | acc, [] => .ok acc
  | acc, (w, _) :: rest => if w < 0 then .error .negativeWeight else total (acc + w) rest

/-- The total weight, which must be positive. -/
def positiveTotal (entries : List (K × α)) : Except (Fault K) K := do
  let t ← total 0 entries
  if 0 < t then return t else throw .zeroTotalWeight

/-- The first entry whose prefix sum, counted from `acc`, exceeds `r`. -/
def firstAbove (r : K) : K → List (K × α) → Option α
  | _, [] => none
  | acc, (w, a) :: rest => if r < acc + w then some a else firstAbove r (acc + w) rest

/-- The last entry with a positive weight, and the last of all if there is none. -/
def lastPositive (first : K × α) (rest : List (K × α)) : α :=
  match (first :: rest).reverse.find? fun e => decide (0 < e.1) with
  | some e => e.2
  | none => (rest.getLastD first).2

/-- One entry, chosen by weight. -/
def weighted (entries : List (K × α)) : Sampling K α :=
  match entries with
  | [] => throw .noWeights
  | first :: rest => do
    let t ← ofExcept (positiveTotal (first :: rest))
    let u ← (Draw.uniform : Draw K)
    return (firstAbove (u * t) 0 (first :: rest)).getD (lastPositive first rest)

/-- The position of one weight, chosen by weight. -/
def weightedIndex (weights : List K) : Sampling K Nat := weighted weights.zipIdx

end Sampling

end LargeNeighbourhood
