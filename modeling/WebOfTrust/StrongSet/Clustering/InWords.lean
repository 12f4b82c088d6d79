import WebOfTrust.Number.Words
import WebOfTrust.StrongSet.Clustering

/-!
# `WebOfTrust.StrongSet.Clustering.InWords`: the clustering coefficient in words of 64 bits

The numerator of a coefficient is a sum of sums of products, kept in a word without a sign. The
denominator can be negative and is kept in a word with one. Here each sum, product and difference
has to fit into its word, those on the way to a result included.

What is common to two nodes is looked for among the neighbours of the one that has fewer. Neighbours
are a set and are gone through in some order, which is a parameter.
-/

set_option autoImplicit false

namespace WebOfTrust.StrongSetGraph

/-- The sum over the common neighbours of `i` and `j`. -/
def throughInWords (g : StrongSetGraph) (order : Nat → List Nat) (i j : Nat) :
    Except Overflow Nat :=
  let (small, large) :=
    if (g.neighbors i).all.size ≤ (g.neighbors j).all.size then (i, j) else (j, i)
  Word.sum ((order small).filter fun h => (g.neighbors large).all.contains h) fun h =>
    Word.unsigned ((g.neighbors i).weight h * (g.neighbors j).weight h)

/-- The numerator of the coefficient. The sum and each of its terms are checked. -/
def triangleSumInWords (g : StrongSetGraph) (order : Nat → List Nat) (i : Nat) :
    Except Overflow Nat :=
  Word.sum (order i) fun j => do
    let through ← g.throughInWords order i j
    Word.unsigned ((g.neighbors i).weight j * through)

/-- The denominator of the coefficient. The degree is a count that is given a sign. Every
intermediate result is checked by `Word.signed`. -/
def clusteringDenominatorInWords (g : StrongSetGraph) (i : Nat) : Except Overflow Int := do
  let count ← Word.unsigned (g.neighbors i).degree
  let d ← Word.signed count
  let pred ← Word.signed (d - 1)
  let pairs ← Word.signed (d * pred)
  let cross ← Word.signed (2 * g.crossDegree i)
  let difference ← Word.signed (pairs - cross)
  Word.signed (2 * difference)

/-- The clustering coefficient of a node. It follows `localCoefficient` step by step. -/
def localCoefficientInWords (g : StrongSetGraph) (order : Nat → List Nat) (i : Nat) :
    Except Overflow Coefficient := do
  if (g.neighbors i).all.size < 2 then
    return .ratio 0 1
  let denominator ← g.clusteringDenominatorInWords i
  if denominator ≤ 0 then
    return .degenerate
  let numerator ← g.triangleSumInWords order i
  return .ratio numerator denominator.toNat

end WebOfTrust.StrongSetGraph
