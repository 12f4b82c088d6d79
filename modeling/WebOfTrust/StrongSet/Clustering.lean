import WebOfTrust.StrongSet.Description
import WebOfTrust.StrongSet.Graph

/-!
# `WebOfTrust.StrongSet.Clustering`: how densely the neighbours of a key certify each other

The local clustering coefficient of a node is a fraction. The numerator sums, over each neighbour
`j` and each common neighbour `h` of the node and `j`, the product of the weights of the three
pairs. The denominator is `2 * (d * (d - 1) - 2 * c)`, where `d` is the number of edges at the node
and `c` its cross degree in the connectivity table: it is what the numerator would be if all
neighbours certified each other both ways. A node with fewer than two neighbours has coefficient
zero; one whose denominator is not positive has none.

The fraction is kept as two whole numbers and divided where a number is asked for. The coefficients
can be computed in chunks, in any order.
-/

set_option autoImplicit false

namespace WebOfTrust

/-- The clustering coefficient of a node. Fractions are kept exact, so that they can be compared in
statements. -/
inductive Coefficient where
  /-- A fraction. -/
  | ratio (numerator denominator : Nat)
  /-- Two neighbours or more, and a denominator that is not positive. -/
  | degenerate
  deriving DecidableEq, Repr, Inhabited

/-- The coefficient as a number; a degenerate one counts as zero. It is the only place where a
coefficient is rounded. -/
def Coefficient.value : Coefficient → Float
  | ratio numerator denominator => floatOfCount numerator / floatOfCount denominator
  | degenerate => 0

namespace StrongSetGraph

/-! ### One node -/

/-- The sum over the common neighbours of `i` and `j`. -/
def through (g : StrongSetGraph) (i j : Nat) : Nat :=
  let common := (g.neighbors i).all.keys.filter fun h => (g.neighbors j).all.contains h
  @List.sum Nat _ ⟨0⟩ (common.map fun h => (g.neighbors i).weight h * (g.neighbors j).weight h)

/-- The numerator of the coefficient. Each neighbour contributes its weight times what goes
`through` it. -/
def triangleSum (g : StrongSetGraph) (i : Nat) : Nat :=
  @List.sum Nat _ ⟨0⟩
    ((g.neighbors i).all.keys.map fun j => (g.neighbors i).weight j * g.through i j)

/-- The cross degree of a node in the connectivity table. `reciprocalDegree` is what it should be,
counted in the corpus. -/
def crossDegree (g : StrongSetGraph) (i : Nat) : Nat :=
  match g.nodes[i]? with
  | some node => node.crossDegree.toNat
  | none => 0

/-- The denominator of the coefficient, which a connectivity table can make negative. It is computed
in `Int` for that reason. -/
def clusteringDenominator (g : StrongSetGraph) (i : Nat) : Int :=
  let d : Int := (g.neighbors i).degree
  2 * (d * (d - 1) - 2 * (g.crossDegree i : Int))

/-- The clustering coefficient of a node. With fewer than two neighbours it is 0 / 1. -/
def localCoefficient (g : StrongSetGraph) (i : Nat) : Coefficient :=
  if (g.neighbors i).all.size < 2 then .ratio 0 1
  else if g.clusteringDenominator i ≤ 0 then .degenerate
  else .ratio (g.triangleSum i) (g.clusteringDenominator i).toNat

/-- The coefficients of all nodes, in their order. It is the sequential version of
`clusteringCoefficientsInChunks`. -/
def clusteringCoefficients (g : StrongSetGraph) : List Coefficient :=
  (List.range g.size).map g.localCoefficient

/-! ### In chunks -/

/-- A part of the result: the number of its first node, and the coefficients from there on. A worker
computes one, and knows its place. -/
structure CoefficientChunk where
  start : Nat
  values : List Coefficient
  deriving DecidableEq, Repr

/-- The number of nodes of a chunk when `n` nodes are shared out among the workers, of whom there is
at least one and none is idle. -/
def chunkSize (n workers : Nat) : Nat :=
  let workers := min (max workers 1) (max n 1)
  max ((n + workers - 1) / workers) 1

/-- The chunks for a number of workers. The last one may be shorter than the others. -/
def clusteringChunks (g : StrongSetGraph) (workers : Nat) : List CoefficientChunk :=
  let n := g.size
  let chunk := chunkSize n workers
  (List.range ((n + chunk - 1) / chunk)).map fun k =>
    let start := k * chunk
    ⟨start, (List.range (min (start + chunk) n - start)).map fun i =>
      g.localCoefficient (start + i)⟩

/-- Puts a chunk at its place. The length of `out` does not change if the chunk lies within it. -/
def CoefficientChunk.store (out : List Coefficient) (c : CoefficientChunk) : List Coefficient :=
  out.take c.start ++ c.values ++ out.drop (c.start + c.values.length)

/-- The coefficients of all nodes out of chunks that arrive in some order. Places that no chunk
covers would stay at 0 / 1. -/
def collectCoefficients (n : Nat) (chunks : List CoefficientChunk) : List Coefficient :=
  chunks.foldl CoefficientChunk.store (List.replicate n (.ratio 0 1))

/-- The coefficients of all nodes, computed by some workers. `clusteringCoefficientsInChunks_eq`
says that their number does not matter. -/
def clusteringCoefficientsInChunks (g : StrongSetGraph) (workers : Nat) : List Coefficient :=
  collectCoefficients g.size (g.clusteringChunks workers)

end StrongSetGraph

/-! ### The whole graph -/

/-- The mean of the coefficients; that of none is zero. Degenerate coefficients are among them, as
zeros. -/
def globalCoefficient (coefficients : List Float) : Float :=
  if coefficients.isEmpty then 0
  else floatSum coefficients / floatOfCount coefficients.length

end WebOfTrust
