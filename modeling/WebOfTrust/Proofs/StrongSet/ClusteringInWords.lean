import WebOfTrust.Proofs.Outcome
import WebOfTrust.Proofs.StrongSet.EdgeTotals
import WebOfTrust.StrongSet.Clustering.InWords

/-!
# `WebOfTrust.Proofs.StrongSet.ClusteringInWords`: no step of a coefficient overflows

A clustering coefficient is a fraction of two large numbers. If one of them wrapped around, the
fraction would be another one, and it would look like any other. Both are bounded by the square of
the degree, which in turn is at most twice the number of nodes, for a node has an edge to each node
and from each node at most, itself among them. Below `2 ^ 30` nodes that leaves room for twice the
square, with a sign.

The numerator needs no look at single triangles: what goes through a neighbour is at most twice the
degree, and the weights of the neighbours add up to the degree.

- `Word.sum_eq_ok_iff`: a sum that grows step by step;
- `StrongSetGraph.WellFormed.degree_le`, `StrongSetGraph.WellFormed.through_le`: the two bounds;
- `StrongSetGraph.localCoefficient_never_overflows`: all that is computed for a node.
-/

set_option autoImplicit false

namespace WebOfTrust

/-- Counts are not negative, so no subtotal is greater than the whole. So a checked sum succeeds if
and only if its result fits into a word. The induction is on `items`, under any subtotal. -/
theorem Word.sum_eq_ok_iff {α : Type} {items : List α} {count : α → Except Overflow Nat}
    {value : α → Nat} (hcount : ∀ item ∈ items, count item = .ok (value item)) {n : Nat} :
    sum items count = .ok n ↔ (items.map value).sum = n ∧ n < UInt64.size := by
  -- The induction is on the items, under any subtotal that a word holds.
  have key : ∀ subtotal < UInt64.size,
      items.foldlM (fun subtotal item => do unsigned (subtotal + (← count item))) subtotal = .ok n ↔
        subtotal + (items.map value).sum = n ∧ n < UInt64.size := by
    induction items with
    | nil =>
      intro subtotal hsubtotal
      show Except.ok subtotal = .ok n ↔ subtotal + 0 = n ∧ n < UInt64.size
      rw [Except.ok.injEq, Nat.add_zero]
      exact ⟨fun h => ⟨h, h ▸ hsubtotal⟩, And.left⟩
    | cons item items ih =>
      intro subtotal hsubtotal
      rw [List.foldlM_cons, hcount item List.mem_cons_self, List.map_cons, List.sum_cons]
      by_cases hnext : subtotal + value item < UInt64.size
      · have htail := ih (fun other h => hcount other (List.mem_cons_of_mem _ h)) _ hnext
        show (unsigned (subtotal + value item) >>= _) = .ok n ↔ _
        rw [unsigned_of_lt hnext, ← Nat.add_assoc]
        exact htail
      · show (unsigned (subtotal + value item) >>= _) = .ok n ↔ _
        rw [unsigned, if_neg hnext]
        constructor
        · intro h
          cases h
        · intro ⟨h, hn⟩
          omega
  have hzero := key 0 (by decide)
  rwa [Nat.zero_add] at hzero

namespace StrongSetGraph

variable {g : StrongSetGraph} {order : Nat → List Nat} {i j : Nat}

/-! ### Bounds -/

/-- The neighbours in one direction are no more than the nodes, as a set of numbers below `n` has at
most `n` members. -/
theorem size_le_of_forall_lt {s : KeySet Nat} {n : Nat} (h : ∀ j ∈ s, j < n) : s.size ≤ n := by
  rw [← KeySet.card_members, ← Finset.card_range n]
  refine Finset.card_le_card fun j hj => ?_
  rw [Finset.mem_range]
  exact h j (KeySet.mem_members.1 hj)

/-- A node has at most two edges with each node, and with itself too. So `Neighbors.degree` fits
into a word if twice the number of nodes does. -/
theorem WellFormed.degree_le (hg : g.WellFormed) (i : Nat) :
    (g.neighbors i).degree ≤ 2 * g.size := by
  have hincoming : (g.neighbors i).incoming.size ≤ g.size :=
    size_le_of_forall_lt fun j hj => (hg.lt_of_hasEdge ((hg.mirrored j i).1 hj)).1
  have houtgoing : (g.neighbors i).outgoing.size ≤ g.size :=
    size_le_of_forall_lt fun j hj => (hg.lt_of_hasEdge hj).2
  rw [Neighbors.degree]
  omega

/-- The cross degree comes from a column of 32 bits, and a number without a node has none. It is why
signed words suffice for the denominator. -/
theorem crossDegree_lt (g : StrongSetGraph) (i : Nat) : g.crossDegree i < 2 ^ 32 := by
  rw [crossDegree]
  split
  · next node _ => exact node.crossDegree.toNat_lt
  · decide

/-- Each common neighbour has weight two at most on the side of `j`, and the weights on the other
side add up to the degree of `i`. -/
theorem WellFormed.through_le (hg : g.WellFormed) (i j : Nat) :
    g.through i j ≤ 2 * (g.neighbors i).degree := by
  calc g.through i j
      = ∑ h ∈ g.neighborSet i ∩ g.neighborSet j, g.weight i h * g.weight j h := g.through_eq i j
    _ ≤ ∑ h ∈ g.neighborSet i ∩ g.neighborSet j, g.weight i h * 2 :=
        Finset.sum_le_sum fun h _ => Nat.mul_le_mul_left _ (Neighbors.weight_le_two _ h)
    _ ≤ ∑ h ∈ g.neighborSet i, g.weight i h * 2 :=
        Finset.sum_le_sum_of_subset Finset.inter_subset_left
    _ = 2 * (g.neighbors i).degree := by
        rw [← Finset.sum_mul, hg.sum_weight, Nat.mul_comm]

/-- The numerator of a coefficient, whether or not the denominator is positive. Loops are allowed,
so it is compared with the degree and not with `pairWeight`. -/
theorem WellFormed.triangleSum_le_degree (hg : g.WellFormed) (i : Nat) :
    g.triangleSum i ≤ 2 * (g.neighbors i).degree ^ 2 := by
  calc g.triangleSum i
      = ∑ j ∈ g.neighborSet i, g.weight i j * g.through i j := g.triangleSum_eq_sum_through i
    _ ≤ ∑ j ∈ g.neighborSet i, g.weight i j * (2 * (g.neighbors i).degree) :=
        Finset.sum_le_sum fun j _ => Nat.mul_le_mul_left _ (hg.through_le i j)
    _ = 2 * (g.neighbors i).degree ^ 2 := by
        rw [← Finset.sum_mul, hg.sum_weight, Nat.pow_two, Nat.mul_left_comm]

/-! ### Sums -/

/-- `order` goes through the neighbours of each node, once through each of them. Sets have no order
of their own, so every theorem is about any such `order`. -/
def Traverses (order : Nat → List Nat) (g : StrongSetGraph) : Prop :=
  ∀ i, (order i).Perm (g.neighbors i).all.keys

/-- No neighbour comes twice in `order i`, since the stored set has none twice. -/
theorem Traverses.nodup (h : Traverses order g) (i : Nat) : (order i).Nodup :=
  (h i).nodup_iff.2 (Table.nodup_keys _)

/-- What comes in `order i` are the members of `neighborSet i`. -/
theorem Traverses.mem_iff (h : Traverses order g) : j ∈ order i ↔ j ∈ g.neighborSet i := by
  rw [(h i).mem_iff, neighborSet, KeySet.mem_members, Table.mem_keys_iff]

/-- A sum over common neighbours, filtered out of `order i`, is a sum over the intersection of both
sets. The right side does not mention `order` any more. -/
theorem Traverses.sum_common (h : Traverses order g) (i j : Nat) (f : Nat → Nat) :
    (((order i).filter fun k => (g.neighbors j).all.contains k).map f).sum
      = ∑ k ∈ g.neighborSet i ∩ g.neighborSet j, f k := by
  rw [← List.sum_toFinset f ((h.nodup i).filter _)]
  refine Finset.sum_congr ?_ fun _ _ => rfl
  ext k
  rw [List.mem_toFinset, List.mem_filter, h.mem_iff, Finset.mem_inter]
  exact and_congr_right fun _ => KeySet.mem_members.symm

/-- In words the sum over common neighbours comes out as it is. `Word.sum_eq_ok_iff` asks for a
bound on the whole, which is `through_le`. -/
theorem throughInWords_eq (hg : g.WellFormed) (horder : Traverses order g)
    (hdegree : (g.neighbors i).degree < 2 ^ 31) (j : Nat) :
    g.throughInWords order i j = .ok (g.through i j) := by
  have hword : UInt64.size = 2 ^ 64 := rfl
  have hproduct : ∀ k, (g.neighbors i).weight k * (g.neighbors j).weight k < UInt64.size := by
    intro k
    have hle := Nat.mul_le_mul (Neighbors.weight_le_two (g.neighbors i) k)
      (Neighbors.weight_le_two (g.neighbors j) k)
    omega
  have hle := hg.through_le i j
  -- The one that has fewer neighbours is either `i` or `j`, and what they share is the same.
  simp only [throughInWords]
  split
  all_goals
    rw [Word.sum_eq_ok_iff fun k _ => Word.unsigned_of_lt (hproduct k), horder.sum_common]
  · exact ⟨(g.through_eq i j).symm, by omega⟩
  · rw [Finset.inter_comm]
    exact ⟨(g.through_eq i j).symm, by omega⟩

/-- So does the numerator, whose bound is `triangleSum_le_degree`. -/
theorem triangleSumInWords_eq (hg : g.WellFormed) (horder : Traverses order g)
    (hdegree : (g.neighbors i).degree < 2 ^ 31) :
    g.triangleSumInWords order i = .ok (g.triangleSum i) := by
  have hword : UInt64.size = 2 ^ 64 := rfl
  -- What goes through one neighbour is at most the degree, by `through_le`, and a weight is at most
  -- two.
  have hproduct : ∀ j, (g.neighbors i).weight j * g.through i j < UInt64.size := by
    intro j
    have hle := Nat.mul_le_mul (Neighbors.weight_le_two (g.neighbors i) j) (hg.through_le i j)
    omega
  have hsquare : (g.neighbors i).degree ^ 2 < (2 ^ 31) ^ 2 :=
    Nat.pow_lt_pow_left hdegree (by decide)
  have hle := hg.triangleSum_le_degree i
  -- No step of a term overflows, so it is what it is in `Nat`.
  have hterm : ∀ j, (do
      let through ← g.throughInWords order i j
      Word.unsigned ((g.neighbors i).weight j * through))
        = .ok ((g.neighbors i).weight j * g.through i j) := fun j => by
    rw [throughInWords_eq hg horder hdegree, except_bind_ok, Word.unsigned_of_lt (hproduct j)]
  rw [triangleSumInWords, Word.sum_eq_ok_iff fun j _ => hterm j]
  constructor
  · rw [((horder i).map _).sum_eq, triangleSum]
  · omega

/-! ### The denominator and the coefficient -/

/-- The product `d * (d - 1)` has no negative factor, unless it is zero times minus one. So it is
not negative. -/
theorem mul_pred_bounds {d : Int} (hpos : 0 ≤ d) (hlt : d < 2 ^ 31) :
    0 ≤ d * (d - 1) ∧ d * (d - 1) < 2 ^ 62 := by
  rcases hpos.eq_or_lt with rfl | hone
  · decide
  · have hpred : 0 ≤ d - 1 := by omega
    refine ⟨Int.mul_nonneg hpos hpred, ?_⟩
    calc d * (d - 1) < 2 ^ 31 * 2 ^ 31 := mul_lt_mul'' hlt (by omega) hpos hpred
      _ = 2 ^ 62 := by decide

/-- The denominator is computed in signed words, and may be negative. No step of it leaves their
range. The bounds on degree and cross degree leave room for every intermediate result. -/
theorem clusteringDenominatorInWords_eq (hdegree : (g.neighbors i).degree < 2 ^ 31) :
    g.clusteringDenominatorInWords i = .ok (g.clusteringDenominator i) := by
  have hword : UInt64.size = 2 ^ 64 := rfl
  have hcross := g.crossDegree_lt i
  have hpairs := mul_pred_bounds (d := (g.neighbors i).degree) (by omega)
    (by exact_mod_cast hdegree)
  -- Every intermediate result is checked, and each fits by the bounds above.
  simp only [clusteringDenominatorInWords, clusteringDenominator]
  rw [Word.unsigned_of_lt (by omega), except_bind_ok, Word.signed_of_bounds (by omega),
    except_bind_ok, Word.signed_of_bounds (by omega), except_bind_ok,
    Word.signed_of_bounds (by omega), except_bind_ok, Word.signed_of_bounds (by omega),
    except_bind_ok, Word.signed_of_bounds (by omega), except_bind_ok,
    Word.signed_of_bounds (by omega)]

/-- What is computed for a node, in words. The denominator does not depend on an order, and the
numerator is the same in any. Every field with `.ok` says that a checked computation succeeds. -/
structure FitsIntoWords (g : StrongSetGraph) (order : Nat → List Nat) (i : Nat) : Prop where
  /-- The signed arithmetic does not overflow. -/
  denominator : g.clusteringDenominatorInWords i = .ok (g.clusteringDenominator i)
  /-- Neither does the sum for a single neighbour. -/
  through : ∀ j, g.throughInWords order i j = .ok (g.through i j)
  /-- Neither does the sum over all of them. -/
  numerator : g.triangleSumInWords order i = .ok (g.triangleSum i)
  /-- This is the bound that keeps it in range. -/
  numerator_le : g.triangleSum i ≤ 2 * (g.neighbors i).degree ^ 2
  /-- So the coefficient is that of unbounded numbers. -/
  coefficient : g.localCoefficientInWords order i = .ok (g.localCoefficient i)

/-- No step overflows, for any node of any graph below `2 ^ 30` nodes, whatever its cross degree.
The bound on nodes gives degrees below `2 ^ 31`, and those give everything else. -/
theorem localCoefficient_never_overflows {calls : List Call} (hsize : (build calls).size < 2 ^ 30)
    {order : Nat → List Nat} (horder : Traverses order (build calls)) (i : Nat) :
    (build calls).FitsIntoWords order i := by
  have hg := wellFormed_build calls
  -- Each node has at most two edges with each of fewer than 2 ^ 30 nodes.
  have hdegree : ((build calls).neighbors i).degree < 2 ^ 31 := by
    have hle := hg.degree_le i
    omega
  have hdenominator := clusteringDenominatorInWords_eq hdegree
  have hnumerator := triangleSumInWords_eq hg horder hdegree
  refine ⟨hdenominator, throughInWords_eq hg horder hdegree, hnumerator,
    hg.triangleSum_le_degree i, ?_⟩
  rw [localCoefficientInWords, localCoefficient, hdenominator, hnumerator]
  split
  · rfl
  · simp only [except_bind_ok]
    split <;> rfl

/-- The three keys of `threeKeyCalls`, one of which signed itself, gone through from the last one to
the first. Graphs with loops are not excluded, and `order` is not the one in which the sets are
stored. -/
theorem localCoefficient_never_overflows_threeKeys :
    let a : KeyId := ⟨"AA", by decide⟩
    let calls := threeKeyCalls a ⟨"BB", by decide⟩ ⟨"CC", by decide⟩ ++ [.addEdge a a]
    let order := fun i => ((build calls).neighbors i).all.keys.reverse
    (build calls).size < 2 ^ 30 ∧ Traverses order (build calls) ∧
      (build calls).FitsIntoWords order 0 ∧
      (build calls).localCoefficientInWords order 0 = .ok (.ratio 48 52) := by
  intro a calls order
  have hsize : (build calls).size < 2 ^ 30 := by decide +kernel
  have horder : Traverses order (build calls) := fun i => List.reverse_perm _
  exact ⟨hsize, horder, localCoefficient_never_overflows hsize horder 0, by decide +kernel⟩

end StrongSetGraph

end WebOfTrust
