import Mathlib.Algebra.BigOperators.Ring.Finset
import Mathlib.Algebra.Order.BigOperators.Group.Finset
import Mathlib.Data.Finset.Prod
import Mathlib.Tactic.IntervalCases
import Mathlib.Tactic.Linarith
import WebOfTrust.Proofs.StrongSet.Graph
import WebOfTrust.StrongSet.Clustering

/-!
# `WebOfTrust.Proofs.StrongSet.Clustering`: the clustering coefficient lies between zero and one

The numerator of a coefficient is a sum over pairs of neighbours, the denominator is computed from
two counts. What ties them together is one equation. The weights of a node's neighbours add up to
its degree `d`, and their squares to `d + 2 * r`, where `r` neighbours have an edge in both
directions. So the products of the weights of two different neighbours add up to `d * (d - 1) - 2 *
r`. In the numerator each of these products is multiplied with the weight between the two
neighbours, which is two at most.

The cross degree of the connectivity table stands for `r` in the denominator. A table that gives too
much makes the denominator too small, perhaps negative; one that gives too little only makes the
coefficient smaller. A node with two neighbours or more is never degenerate while its cross degree
is no more than `r`.

- `StrongSetGraph.WellFormed.pairWeight_eq`: the products over two different neighbours;
- `StrongSetGraph.triangleSum_eq_sum_offDiag`: the numerator over the same pairs;
- `StrongSetGraph.localCoefficient_bounds`: the coefficient and its extremes.
-/

set_option autoImplicit false

namespace WebOfTrust

/-- A set of numbers is counted by going through any numbers among which its members are. Degrees
become sums over sets by this. `WellFormed.sum_weight` and the totals of edges are both found in
this way. -/
theorem KeySet.sum_ite_mem {s : KeySet Nat} {t : Finset Nat} (h : ∀ j ∈ s, j ∈ t) :
    ∑ j ∈ t, (if j ∈ s then 1 else 0) = s.size := by
  rw [← card_members, Finset.card_eq_sum_ones, ← Finset.sum_filter]
  congr 1
  ext j
  rw [Finset.mem_filter, mem_members]
  exact and_iff_right_of_imp (h j)

namespace StrongSetGraph

variable {g : StrongSetGraph} {i j h : Nat}

/-! ### Neighbours and weights -/

/-- The neighbours of node `i`, in either direction. It is `Neighbors.all` as a `Finset`, so that
numerator and denominator can be written as sums over it. -/
def neighborSet (g : StrongSetGraph) (i : Nat) : Finset Nat := (g.neighbors i).all.members

/-- The number of directions in which there is an edge between two nodes: zero, one or two.
`Neighbors.weight` counts them, and `WellFormed.weight_comm` says that both nodes count the same. -/
def weight (g : StrongSetGraph) (i j : Nat) : Nat := (g.neighbors i).weight j

/-- The number of neighbours with edges in both directions. The cross degree of the connectivity
table is meant to be this number, but is taken as it comes. So `crossDegree` is compared with it in
what follows, and is not replaced by it. -/
def reciprocalDegree (g : StrongSetGraph) (i : Nat) : Nat :=
  ((g.neighborSet i).filter fun j => g.weight i j = 2).card

/-- There is an edge between nodes `i` and `j` in one direction at least, so that `weight` is not
zero. -/
def Linked (g : StrongSetGraph) (i j : Nat) : Prop := g.HasEdge i j ∨ g.HasEdge j i

/-- There are edges between nodes `i` and `j` in both directions, so that `weight` is two. It is the
case in which a pair of neighbours counts in full. -/
def Mutual (g : StrongSetGraph) (i j : Nat) : Prop := g.HasEdge i j ∧ g.HasEdge j i

/-- The neighbours of `i` are the nodes that an edge leads to from `i` or comes from to `i`.
`WellFormed` is needed, as `neighborSet` reads the stored union and `Linked` reads the edges. -/
theorem WellFormed.mem_neighborSet (hg : g.WellFormed) : j ∈ g.neighborSet i ↔ g.Linked i j := by
  rw [neighborSet, KeySet.mem_members, hg.all, hg.mirrored]
  rfl

/-- The weight is zero exactly for nodes outside `neighborSet`. Sums can be extended beyond the
neighbours by this, as the other terms vanish. -/
theorem WellFormed.weight_eq_zero_iff (hg : g.WellFormed) :
    g.weight i j = 0 ↔ j ∉ g.neighborSet i := by
  rw [weight, Neighbors.weight_eq_zero_iff, neighborSet, KeySet.mem_members, hg.all]

/-- A weight of two tells a neighbour in both directions from one in a single direction. It turns
equality of sums into `Mutual`. -/
theorem WellFormed.weight_eq_two_iff (hg : g.WellFormed) : g.weight i j = 2 ↔ g.Mutual i j := by
  rw [weight, Neighbors.weight_eq_two_iff, hg.mirrored]
  rfl

/-- Without loops, no node is in its own `neighborSet`. The numerator goes through all pairs of
neighbours, and the pairs of one with itself vanish by this. -/
theorem Loopless.not_mem_neighborSet (hloop : g.Loopless) (hg : g.WellFormed) (i : Nat) :
    i ∉ g.neighborSet i := by
  rw [hg.mem_neighborSet]
  exact fun hi => hi.elim (hloop i) (hloop i)

/-- The weights of the neighbours of `i` add up to `Neighbors.degree`, which counts both directions.
Each direction is a sum of its own, by `KeySet.sum_ite_mem`. -/
theorem WellFormed.sum_weight (hg : g.WellFormed) (i : Nat) :
    ∑ j ∈ g.neighborSet i, g.weight i j = (g.neighbors i).degree := by
  simp only [weight, Neighbors.weight, Finset.sum_add_distrib]
  rw [KeySet.sum_ite_mem, KeySet.sum_ite_mem, Neighbors.degree, Nat.add_comm]
  all_goals
    intro j hj
    rw [neighborSet, KeySet.mem_members, hg.all]
  · exact .inr hj
  · exact .inl hj

/-- A weight of two counts four times, one of one once. So the sum exceeds the degree by two for
each neighbour in both directions. It is what the diagonal takes away in
`WellFormed.pairWeight_eq`. -/
theorem WellFormed.sum_weight_mul_self (hg : g.WellFormed) (i : Nat) :
    ∑ j ∈ g.neighborSet i, g.weight i j * g.weight i j
      = (g.neighbors i).degree + 2 * g.reciprocalDegree i := by
  have hsquare : ∀ j, g.weight i j * g.weight i j
      = g.weight i j + 2 * if g.weight i j = 2 then 1 else 0 := fun j => by
    have hle : g.weight i j ≤ 2 := Neighbors.weight_le_two _ j
    interval_cases g.weight i j <;> rfl
  simp only [hsquare, Finset.sum_add_distrib, ← Finset.mul_sum, hg.sum_weight]
  rw [reciprocalDegree, Finset.card_filter]

/-! ### Pairs of neighbours -/

/-- The products of the weights of two different neighbours, added up. It is the number of pairs of
edges that could be closed by a third one. `triangleSum_le` bounds the numerator by twice this
number. -/
def pairWeight (g : StrongSetGraph) (i : Nat) : Nat :=
  ∑ p ∈ (g.neighborSet i).offDiag, g.weight i p.1 * g.weight i p.2

/-- The product of the degree with itself, without the pairs of a neighbour with itself. Here the
denominator of the coefficient comes from. It is stated with `+` on the left, since the numbers are
natural ones. -/
theorem WellFormed.pairWeight_eq (hg : g.WellFormed) (i : Nat) :
    g.pairWeight i + ((g.neighbors i).degree + 2 * g.reciprocalDegree i)
      = (g.neighbors i).degree * (g.neighbors i).degree := by
  -- All pairs are those of a neighbour with itself and those of two different ones.
  calc g.pairWeight i + ((g.neighbors i).degree + 2 * g.reciprocalDegree i)
      = ∑ p ∈ (g.neighborSet i).offDiag, g.weight i p.1 * g.weight i p.2
          + ∑ p ∈ (g.neighborSet i).diag, g.weight i p.1 * g.weight i p.2 := by
        rw [pairWeight, Finset.sum_diag, hg.sum_weight_mul_self]
    _ = ∑ p ∈ g.neighborSet i ×ˢ g.neighborSet i, g.weight i p.1 * g.weight i p.2 := by
        rw [Nat.add_comm, ← Finset.sum_union (Finset.disjoint_diag_offDiag _),
          Finset.diag_union_offDiag]
    _ = (g.neighbors i).degree * (g.neighbors i).degree := by
        rw [← hg.sum_weight, Finset.sum_mul_sum, Finset.sum_product]

/-- The sum over common neighbours, as one over a set. The definition filters the neighbours of `i`,
which are a list without repetitions. -/
theorem through_eq (g : StrongSetGraph) (i j : Nat) :
    g.through i j = ∑ h ∈ g.neighborSet i ∩ g.neighborSet j, g.weight i h * g.weight j h := by
  have hnodup : (g.neighbors i).all.keys.Nodup := Table.nodup_keys _
  rw [through, ← List.sum_toFinset _ (hnodup.filter _)]
  refine Finset.sum_congr ?_ fun _ _ => rfl
  ext h
  rw [List.mem_toFinset, List.mem_filter, Finset.mem_inter, neighborSet, neighborSet,
    KeySet.mem_members, KeySet.mem_members, Table.mem_keys_iff]
  rfl

/-- The numerator as a sum over the neighbours `j` of `i`, each with its weight and what goes
`through` it. The program adds up in the same nesting. -/
theorem triangleSum_eq_sum_through (g : StrongSetGraph) (i : Nat) :
    g.triangleSum i = ∑ j ∈ g.neighborSet i, g.weight i j * g.through i j := by
  have hnodup : (g.neighbors i).all.keys.Nodup := Table.nodup_keys _
  rw [triangleSum, ← List.sum_toFinset _ hnodup]
  rfl

/-- The numerator as sums over sets: of `neighborSet i`, and of the neighbours that `i` and `j`
share. The order in which the program goes through them does not matter any more. -/
theorem triangleSum_eq (g : StrongSetGraph) (i : Nat) :
    g.triangleSum i = ∑ j ∈ g.neighborSet i, ∑ h ∈ g.neighborSet i ∩ g.neighborSet j,
      g.weight i j * g.weight i h * g.weight j h := by
  rw [triangleSum_eq_sum_through]
  refine Finset.sum_congr rfl fun j _ => ?_
  rw [through_eq, Finset.mul_sum]
  exact Finset.sum_congr rfl fun h _ => (Nat.mul_assoc _ _ _).symm

/-- Nodes that are no neighbours have weight zero, so a graph without loops has nothing to add
beyond the pairs of different neighbours. In this form `triangleSum` and `pairWeight` are compared
term by term. -/
theorem triangleSum_eq_sum_offDiag (hg : g.WellFormed) (hloop : g.Loopless) (i : Nat) :
    g.triangleSum i = ∑ p ∈ (g.neighborSet i).offDiag,
      g.weight i p.1 * g.weight i p.2 * g.weight p.1 p.2 := by
  -- Beyond the neighbours that `i` and `j` share, the weight of `h` from `j` is zero.
  have hall : ∀ j, ∑ h ∈ g.neighborSet i ∩ g.neighborSet j,
      g.weight i j * g.weight i h * g.weight j h
        = ∑ h ∈ g.neighborSet i, g.weight i j * g.weight i h * g.weight j h := fun j => by
    refine Finset.sum_subset Finset.inter_subset_left fun h hh hnot => ?_
    have hj : h ∉ g.neighborSet j := fun hj => hnot (Finset.mem_inter.2 ⟨hh, hj⟩)
    rw [hg.weight_eq_zero_iff.2 hj, Nat.mul_zero]
  -- The terms with `j = h` are zero, as no node is a neighbour of its own.
  have hdiag : ∑ p ∈ (g.neighborSet i).diag,
      g.weight i p.1 * g.weight i p.2 * g.weight p.1 p.2 = 0 := by
    rw [Finset.sum_diag]
    refine Finset.sum_eq_zero fun j _ => ?_
    rw [hg.weight_eq_zero_iff.2 (hloop.not_mem_neighborSet hg j), Nat.mul_zero]
  rw [triangleSum_eq, Finset.sum_congr rfl fun j _ => hall j, ← Finset.sum_product',
    ← Finset.diag_union_offDiag, Finset.sum_union (Finset.disjoint_diag_offDiag _), hdiag,
    Nat.zero_add]

/-! ### How large the numerator is -/

/-- What holds of all pairs in `Finset.offDiag` holds of all `j` and `h` that differ. The statements
about coefficients have two quantifiers, their proofs go through pairs. -/
theorem forall_offDiag_iff {α : Type} [DecidableEq α] {s : Finset α} {P : α → α → Prop} :
    (∀ p ∈ s.offDiag, P p.1 p.2) ↔ ∀ j ∈ s, ∀ h ∈ s, j ≠ h → P j h :=
  ⟨fun hall j hj h hh hne => hall (j, h) (Finset.mem_offDiag.2 ⟨hj, hh, hne⟩),
    fun hall _ hp =>
      have ⟨hj, hh, hne⟩ := Finset.mem_offDiag.1 hp
      hall _ hj _ hh hne⟩

/-- A product over two neighbours is not zero, as neither `weight` is. So a term of the numerator
vanishes only through its third factor. -/
theorem WellFormed.mul_weight_pos (hg : g.WellFormed) {p : Nat × Nat}
    (hp : p ∈ (g.neighborSet i).offDiag) : 0 < g.weight i p.1 * g.weight i p.2 := by
  obtain ⟨hj, hh, -⟩ := Finset.mem_offDiag.1 hp
  refine Nat.mul_pos ?_ ?_ <;> refine Nat.pos_of_ne_zero fun hzero => ?_
  · exact hg.weight_eq_zero_iff.1 hzero hj
  · exact hg.weight_eq_zero_iff.1 hzero hh

/-- With two neighbours there is a pair of them, so `pairWeight` is not zero. -/
theorem WellFormed.pairWeight_pos (hg : g.WellFormed) (hcard : 2 ≤ (g.neighborSet i).card) :
    0 < g.pairWeight i := by
  obtain ⟨j, hj, h, hh, hne⟩ := Finset.one_lt_card.1 hcard
  have hp : (j, h) ∈ (g.neighborSet i).offDiag := Finset.mem_offDiag.2 ⟨hj, hh, hne⟩
  exact Finset.sum_pos' (fun _ _ => Nat.zero_le _) ⟨(j, h), hp, hg.mul_weight_pos hp⟩

/-- What a pair of neighbours adds to the numerator, against what it adds to `pairWeight`: at most
twice as much, since no weight exceeds two. -/
theorem mul_weight_le (g : StrongSetGraph) (i : Nat) (p : Nat × Nat) :
    g.weight i p.1 * g.weight i p.2 * g.weight p.1 p.2
      ≤ g.weight i p.1 * g.weight i p.2 * 2 :=
  Nat.mul_le_mul_left _ (Neighbors.weight_le_two _ _)

/-- Twice `pairWeight`, with the factor in each of its terms, where it can be compared with the
numerator. -/
theorem pairWeight_mul_two (g : StrongSetGraph) (i : Nat) :
    g.pairWeight i * 2 = ∑ p ∈ (g.neighborSet i).offDiag, g.weight i p.1 * g.weight i p.2 * 2 :=
  Finset.sum_mul _ _ _

/-- The numerator is at most twice `pairWeight`, term by term. -/
theorem triangleSum_le (hg : g.WellFormed) (hloop : g.Loopless) (i : Nat) :
    g.triangleSum i ≤ g.pairWeight i * 2 := by
  rw [triangleSum_eq_sum_offDiag hg hloop, pairWeight_mul_two]
  exact Finset.sum_le_sum fun p _ => g.mul_weight_le i p

/-- The numerator is zero if each of its terms is, and a term is zero if the two neighbours are not
joined. `WellFormed.mul_weight_pos` says that it is for no other reason. -/
theorem triangleSum_eq_zero_iff (hg : g.WellFormed) (hloop : g.Loopless) :
    g.triangleSum i = 0 ↔
      ∀ j ∈ g.neighborSet i, ∀ h ∈ g.neighborSet i, j ≠ h → ¬ g.Linked j h := by
  have hpair : ∀ p ∈ (g.neighborSet i).offDiag,
      g.weight i p.1 * g.weight i p.2 * g.weight p.1 p.2 = 0 ↔ ¬ g.Linked p.1 p.2 := fun p hp => by
    rw [Nat.mul_eq_zero, or_iff_right (hg.mul_weight_pos hp).ne', hg.weight_eq_zero_iff,
      hg.mem_neighborSet]
  rw [triangleSum_eq_sum_offDiag hg hloop, Finset.sum_eq_zero_iff, forall₂_congr hpair]
  exact forall_offDiag_iff (P := fun j h => ¬ g.Linked j h)

/-- The numerator is as large as it can be if each of its terms is, that is, if the two neighbours
are joined in both directions. The bound is that of `triangleSum_le`, and `weight_le_two` gives it
term by term. -/
theorem triangleSum_eq_iff (hg : g.WellFormed) (hloop : g.Loopless) :
    g.triangleSum i = g.pairWeight i * 2 ↔
      ∀ j ∈ g.neighborSet i, ∀ h ∈ g.neighborSet i, j ≠ h → g.Mutual j h := by
  have hpair : ∀ p ∈ (g.neighborSet i).offDiag,
      g.weight i p.1 * g.weight i p.2 * g.weight p.1 p.2 = g.weight i p.1 * g.weight i p.2 * 2 ↔
        g.Mutual p.1 p.2 := fun p hp => by
    rw [Nat.mul_right_inj (hg.mul_weight_pos hp).ne', hg.weight_eq_two_iff]
  rw [triangleSum_eq_sum_offDiag hg hloop, pairWeight_mul_two,
    Finset.sum_eq_sum_iff_of_le fun p _ => g.mul_weight_le i p, forall₂_congr hpair,
    forall_offDiag_iff]

/-! ### The coefficient -/

/-- The denominator is twice the sum of the products, as long as the cross degree counts the
neighbours in both directions. Otherwise it is off by four for each that is missing or too many. The
difference is taken in `Int`, because `crossDegree` is read from a table and may be anything. -/
theorem WellFormed.clusteringDenominator_eq (hg : g.WellFormed) (i : Nat) :
    g.clusteringDenominator i =
      2 * (g.pairWeight i + 2 * ((g.reciprocalDegree i : Int) - g.crossDegree i)) := by
  have hpairs : (g.pairWeight i : Int) + ((g.neighbors i).degree + 2 * g.reciprocalDegree i)
      = (g.neighbors i).degree * (g.neighbors i).degree := by exact_mod_cast hg.pairWeight_eq i
  simp only [clusteringDenominator]
  linarith

/-- The coefficient of a node with two neighbours or more, as a fraction that lies between zero and
one. Here `T` is the numerator and `D` the denominator. -/
structure ClusteringBounds (g : StrongSetGraph) (i T D : Nat) : Prop where
  /-- The coefficient is reported as this fraction, not shortened. -/
  coefficient : g.localCoefficient i = .ratio T D
  /-- It goes through pairs of joined neighbours, each with its three weights. -/
  numerator : T = ∑ j ∈ g.neighborSet i, ∑ h ∈ g.neighborSet i ∩ g.neighborSet j,
    g.weight i j * g.weight i h * g.weight j h
  /-- Degrees count both directions, and the cross degree is subtracted. -/
  denominator : (D : Int) =
    2 * ((g.neighbors i).degree * ((g.neighbors i).degree - 1) - 2 * (g.crossDegree i : Int))
  /-- So the fraction has a value. -/
  pos : 0 < D
  /-- It is at most one. -/
  le : T ≤ D
  /-- It is zero if no two neighbours are joined. -/
  eq_zero_iff : T = 0 ↔ ∀ j ∈ g.neighborSet i, ∀ h ∈ g.neighborSet i, j ≠ h → ¬ g.Linked j h
  /-- It is one if every two neighbours certify each other, under the right cross degree. -/
  eq_iff : g.crossDegree i = g.reciprocalDegree i →
    (T = D ↔ ∀ j ∈ g.neighborSet i, ∀ h ∈ g.neighborSet i, j ≠ h → g.Mutual j h)

/-- The bounds, for numerator and denominator as they are computed. A cross degree that is too small
makes the denominator larger, which leaves the bounds as they are. The last field has the equality
of `crossDegree` and `reciprocalDegree` as a condition of its own. -/
theorem WellFormed.clusteringBounds (hg : g.WellFormed) (hloop : g.Loopless)
    (hcross : g.crossDegree i ≤ g.reciprocalDegree i) (hcard : 2 ≤ (g.neighborSet i).card) :
    g.ClusteringBounds i (g.triangleSum i) (g.clusteringDenominator i).toNat := by
  have hdenominator := hg.clusteringDenominator_eq i
  have hpairs := hg.pairWeight_pos hcard
  have hle := triangleSum_le hg hloop i
  have hsize : ¬ (g.neighbors i).all.size < 2 := by
    rwa [← KeySet.card_members, Nat.not_lt]
  -- The denominator is at least twice `pairWeight`, which is positive with two neighbours.
  have hpositive : ¬ g.clusteringDenominator i ≤ 0 := by omega
  exact {
    coefficient := by rw [localCoefficient, if_neg hsize, if_neg hpositive]
    numerator := g.triangleSum_eq i
    denominator := by
      rw [Int.toNat_of_nonneg (by omega)]
      rfl
    pos := by omega
    le := by omega
    eq_zero_iff := triangleSum_eq_zero_iff hg hloop
    eq_iff := fun hexact => by
      rw [← triangleSum_eq_iff hg hloop]
      omega }

/-- The coefficient of every node of every graph where no key signs itself, if its cross degree is
not too large: it is zero with fewer than two neighbours, and else a fraction within its bounds.
`WellFormed` and `Loopless` come from the calls, by `wellFormed_build` and `loopless_build`. -/
theorem localCoefficient_bounds {calls : List Call}
    (hcalls : ∀ signer signee, .addEdge signer signee ∈ calls → signer ≠ signee) {i : Nat}
    (hcross : (build calls).crossDegree i ≤ (build calls).reciprocalDegree i) :
    (((build calls).neighborSet i).card < 2 → (build calls).localCoefficient i = .ratio 0 1) ∧
      (2 ≤ ((build calls).neighborSet i).card → ∃ T D, (build calls).ClusteringBounds i T D) := by
  refine ⟨fun hcard => ?_, fun hcard => ⟨_, _,
    (wellFormed_build calls).clusteringBounds (loopless_build hcalls) hcross hcard⟩⟩
  rw [neighborSet, KeySet.card_members] at hcard
  rw [localCoefficient, if_pos hcard]

/-- Calls for a key with two neighbours in both directions, one of which certified the other. Those
for a key that has a node already and for a key that has none yet change nothing. So the graph has
three nodes, of which `a` is number 0. -/
def threeKeyCalls (a b c : KeyId) : List Call :=
  let node (k : KeyId) : Call := .addNode ⟨k, ⟨0⟩, 2, 2, 2, 1, ⟨0⟩, ⟨0⟩, ⟨0⟩⟩
  [node a, node b, .addEdge a c, node c, node a, .addEdge a b, .addEdge b a, .addEdge a c,
    .addEdge c a, .addEdge b c, .addEdge b c]

/-- In the graph of `threeKeyCalls` the coefficient of node 0 is 8/16, half of what it would be if
both neighbours certified each other. Its cross degree is the `reciprocalDegree`. -/
theorem localCoefficient_bounds_threeKeys :
    let calls := threeKeyCalls ⟨"AA", by decide⟩ ⟨"BB", by decide⟩ ⟨"CC", by decide⟩
    (∀ signer signee, .addEdge signer signee ∈ calls → signer ≠ signee) ∧
      (build calls).crossDegree 0 = (build calls).reciprocalDegree 0 ∧
      (build calls).localCoefficient 0 = .ratio 8 16 ∧
      ∃ T D, (build calls).ClusteringBounds 0 T D := by
  intro calls
  -- No key of the calls certifies itself.
  have hcalls : ∀ signer signee, .addEdge signer signee ∈ calls → signer ≠ signee := by
    intro signer signee hmem
    simp only [calls, threeKeyCalls, List.mem_cons, reduceCtorEq, Call.addEdge.injEq,
      List.not_mem_nil, false_or, or_false] at hmem
    rcases hmem with h | h | h | h | h | h | h <;> rw [h.1, h.2] <;> decide
  have hcross : (build calls).crossDegree 0 = (build calls).reciprocalDegree 0 := by
    decide +kernel
  exact ⟨hcalls, hcross, by decide +kernel,
    (localCoefficient_bounds hcalls (Nat.le_of_eq hcross)).2 (by decide +kernel)⟩

end StrongSetGraph

end WebOfTrust
