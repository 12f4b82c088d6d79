import WebOfTrust.Proofs.StrongSet.EdgeTotals

/-!
# `WebOfTrust.Proofs.StrongSet.Relabeling`: coefficients do not know the numbers of nodes

Nodes are numbered as they arrive, so two graphs of the same keys number them differently. Where the
edges are between the same keys, the numbers of one graph are those of the other under another name,
and so are the neighbours of a node, their weights and the sums over them. Only the cross degree is
no matter of edges.

- `Relabeling`: the numbers of one graph as those of another;
- `Relabeling.localCoefficient`: the coefficient of a node under both numbers;
- `Alike.coefficientOf`: the coefficient of a key in two graphs of the same keys and edges.
-/

set_option autoImplicit false

namespace WebOfTrust

namespace StrongSetGraph

variable {g g' : StrongSetGraph} {σ : Nat → Nat} {i j : Nat}

/-- Neighbours are nodes, so a `Relabeling` says something about them. -/
theorem WellFormed.lt_of_mem_neighborSet (hg : g.WellFormed) (h : j ∈ g.neighborSet i) :
    j < g.size := by
  rcases hg.mem_neighborSet.1 h with hij | hji
  · exact (hg.lt_of_hasEdge hij).2
  · exact (hg.lt_of_hasEdge hji).1

/-- The weight, as the number of edges in each direction. It is read off `HasEdge` alone, which a
`Relabeling` keeps. -/
theorem WellFormed.weight_eq (hg : g.WellFormed) (i j : Nat) :
    g.weight i j = (if g.HasEdge i j then 1 else 0) + (if g.HasEdge j i then 1 else 0) := by
  simp only [weight, Neighbors.weight, hg.mirrored]
  rfl

/-- The numbers of the nodes of `g` become those of `g'`, and edges are the same. Nothing is said of
what else is known of the nodes. -/
structure Relabeling (g g' : StrongSetGraph) (σ : Nat → Nat) : Prop where
  /-- Both graphs are well-formed. -/
  source : g.WellFormed
  target : g'.WellFormed
  /-- Different nodes get different numbers. -/
  injOn : ∀ i < g.size, ∀ j < g.size, σ i = σ j → i = j
  /-- Every node of `g'` is one of `g`. -/
  surjOn : ∀ i' < g'.size, ∃ i < g.size, σ i = i'
  /-- An edge in one graph is one in the other. -/
  hasEdge : ∀ i < g.size, ∀ j < g.size, g'.HasEdge (σ i) (σ j) ↔ g.HasEdge i j

namespace Relabeling

/-- The weight of two nodes is the same under their new numbers. -/
theorem weight (h : Relabeling g g' σ) (hi : i < g.size) (hj : j < g.size) :
    g'.weight (σ i) (σ j) = g.weight i j := by
  simp only [h.target.weight_eq, h.source.weight_eq, h.hasEdge i hi j hj, h.hasEdge j hj i hi]

/-- The neighbours of `σ i` are the new numbers of the neighbours of `i`, as an image. `surjOn` is
needed for one inclusion, `hasEdge` for both. -/
theorem neighborSet (h : Relabeling g g' σ) (hi : i < g.size) :
    g'.neighborSet (σ i) = (g.neighborSet i).image σ := by
  ext j'
  rw [Finset.mem_image]
  constructor
  · -- A neighbour in the new graph is a node there, so it has an old number.
    intro hj'
    obtain ⟨j, hj, rfl⟩ := h.surjOn j' (h.target.lt_of_mem_neighborSet hj')
    refine ⟨j, ?_, rfl⟩
    rw [h.target.mem_neighborSet, Linked, h.hasEdge i hi j hj, h.hasEdge j hj i hi] at hj'
    exact h.source.mem_neighborSet.2 hj'
  · rintro ⟨j, hj, rfl⟩
    have hlt := h.source.lt_of_mem_neighborSet hj
    rw [h.target.mem_neighborSet, Linked, h.hasEdge i hi j hlt, h.hasEdge j hlt i hi]
    exact h.source.mem_neighborSet.1 hj

/-- Neighbours are nodes, so they get different numbers. Sums over an image need this. -/
theorem injOn_neighborSet (h : Relabeling g g' σ) (i : Nat) :
    Set.InjOn σ (g.neighborSet i) := fun _ hj _ hk =>
  h.injOn _ (h.source.lt_of_mem_neighborSet hj) _ (h.source.lt_of_mem_neighborSet hk)

/-- Common neighbours stay common, as no two nodes get one number. `Finset.image` commutes with the
intersection of such sets. -/
theorem inter (h : Relabeling g g' σ) (hi : i < g.size) (hj : j < g.size) :
    g'.neighborSet (σ i) ∩ g'.neighborSet (σ j) = (g.neighborSet i ∩ g.neighborSet j).image σ := by
  rw [h.neighborSet hi, h.neighborSet hj]
  -- The members of both sets are nodes, and only of nodes the numbers are distinct.
  refine (Finset.image_inter_of_injOn _ _ fun a ha b hb => h.injOn a ?_ b ?_).symm
  · rcases ha with ha | ha <;> exact h.source.lt_of_mem_neighborSet ha
  · rcases hb with hb | hb <;> exact h.source.lt_of_mem_neighborSet hb

/-- Degrees are sums of weights over `neighborSet`, so they are the same under the new numbers. -/
theorem degree (h : Relabeling g g' σ) (hi : i < g.size) :
    (g'.neighbors (σ i)).degree = (g.neighbors i).degree := by
  rw [← h.target.sum_weight, ← h.source.sum_weight, h.neighborSet hi,
    Finset.sum_image (h.injOn_neighborSet i)]
  exact Finset.sum_congr rfl fun j hj => h.weight hi (h.source.lt_of_mem_neighborSet hj)

/-- The numerator is the same: its sums are renumbered, and each of their terms consists of weights.
`Finset.sum_image` is used twice, for the outer sum and for the inner one. -/
theorem triangleSum (h : Relabeling g g' σ) (hi : i < g.size) :
    g'.triangleSum (σ i) = g.triangleSum i := by
  have hinner : ∀ j ∈ g.neighborSet i,
      ∑ k' ∈ g'.neighborSet (σ i) ∩ g'.neighborSet (σ j),
          g'.weight (σ i) (σ j) * g'.weight (σ i) k' * g'.weight (σ j) k'
        = ∑ k ∈ g.neighborSet i ∩ g.neighborSet j,
          g.weight i j * g.weight i k * g.weight j k := by
    intro j hj
    have hjlt := h.source.lt_of_mem_neighborSet hj
    rw [h.inter hi hjlt, Finset.sum_image ((h.injOn_neighborSet i).mono Finset.inter_subset_left)]
    refine Finset.sum_congr rfl fun k hk => ?_
    have hklt := h.source.lt_of_mem_neighborSet (Finset.mem_inter.1 hk).1
    rw [h.weight hi hjlt, h.weight hi hklt, h.weight hjlt hklt]
  rw [triangleSum_eq, triangleSum_eq]
  -- The outer sum is renumbered first, and then each of the inner ones.
  calc ∑ j' ∈ g'.neighborSet (σ i), ∑ k' ∈ g'.neighborSet (σ i) ∩ g'.neighborSet j',
        g'.weight (σ i) j' * g'.weight (σ i) k' * g'.weight j' k'
      = ∑ j' ∈ (g.neighborSet i).image σ, ∑ k' ∈ g'.neighborSet (σ i) ∩ g'.neighborSet j',
          g'.weight (σ i) j' * g'.weight (σ i) k' * g'.weight j' k' :=
        Finset.sum_congr (h.neighborSet hi) fun _ _ => rfl
    _ = ∑ j ∈ g.neighborSet i, ∑ k' ∈ g'.neighborSet (σ i) ∩ g'.neighborSet (σ j),
          g'.weight (σ i) (σ j) * g'.weight (σ i) k' * g'.weight (σ j) k' :=
        Finset.sum_image (h.injOn_neighborSet i)
    _ = _ := Finset.sum_congr rfl hinner

/-- The node `σ i` has as many neighbours as `i`. Whether there are two decides about the
coefficient. -/
theorem size_all (h : Relabeling g g' σ) (hi : i < g.size) :
    (g'.neighbors (σ i)).all.size = (g.neighbors i).all.size := by
  rw [← KeySet.card_members, ← KeySet.card_members]
  show (g'.neighborSet (σ i)).card = (g.neighborSet i).card
  rw [h.neighborSet hi, Finset.card_image_of_injOn (h.injOn_neighborSet i)]

/-- The coefficient of a node under its two numbers. The cross degree is no property of the edges,
so it has to be assumed. `hcross` is this assumption. -/
theorem localCoefficient (h : Relabeling g g' σ) (hi : i < g.size)
    (hcross : g'.crossDegree (σ i) = g.crossDegree i) :
    g'.localCoefficient (σ i) = g.localCoefficient i := by
  have hdenominator : g'.clusteringDenominator (σ i) = g.clusteringDenominator i := by
    simp only [clusteringDenominator, h.degree hi, hcross]
  rw [StrongSetGraph.localCoefficient, StrongSetGraph.localCoefficient, h.size_all hi, hdenominator,
    h.triangleSum hi]

end Relabeling

/-! ### Graphs of the same keys -/

variable {k k' : KeyId}

/-- Whether one key signed another, both of them nodes. Unlike `HasEdge`, it does not depend on the
numbers. -/
def KeyEdge (g : StrongSetGraph) (k k' : KeyId) : Prop :=
  ∃ i j, g.indexOf k = some i ∧ g.indexOf k' = some j ∧ g.HasEdge i j

/-- The clustering coefficient of a key, if it has a node. It is asked for by key, so that graphs
with different numbers can be compared. -/
def coefficientOf (g : StrongSetGraph) (k : KeyId) : Option Coefficient :=
  (g.indexOf k).map g.localCoefficient

/-- The cross degree of a key, if it has a node, for the same purpose. -/
def crossDegreeOf (g : StrongSetGraph) (k : KeyId) : Option Nat :=
  (g.indexOf k).map g.crossDegree

/-- Keys with known numbers are joined exactly if their numbers are, by `HasEdge`. -/
theorem keyEdge_iff (hk : g.indexOf k = some i) (hk' : g.indexOf k' = some j) :
    g.KeyEdge k k' ↔ g.HasEdge i j := by
  constructor
  · rintro ⟨i', j', hi', hj', h⟩
    rw [hk, Option.some.injEq] at hi'
    rw [hk', Option.some.injEq] at hj'
    rwa [hi', hj']
  · exact fun h => ⟨i, j, hk, hk', h⟩

/-- Two graphs of the same keys, with edges between the same keys. Their nodes may be numbered
differently. `relabeling` finds the renumbering out of the keys. -/
structure Alike (g g' : StrongSetGraph) : Prop where
  /-- Both graphs are well-formed. -/
  source : g.WellFormed
  target : g'.WellFormed
  /-- A key has a node in both of them or in neither. -/
  contains : ∀ k, g.contains k = true ↔ g'.contains k = true
  /-- Two keys are joined in both of them or in neither. -/
  keyEdge : ∀ k k', g.KeyEdge k k' ↔ g'.KeyEdge k k'

/-- The number that the key of a node has in another graph. For numbers without a node it is zero,
which no lemma is about. `indexOf_renumber` says what it is for keys. -/
def renumber (g g' : StrongSetGraph) (i : Nat) : Nat :=
  (g.nodes[i]?.bind fun node => g'.indexOf node.keyId).getD 0

namespace Alike

/-- The number of a key in `g'` is `renumber` of its number in `g`. Both indexes have the same
keys. -/
theorem indexOf_renumber (h : Alike g g') (hk : g.indexOf k = some i) :
    g'.indexOf k = some (renumber g g' i) := by
  obtain ⟨node, hnode, rfl⟩ := (h.source.index k i).1 hk
  have hcontains : g'.contains node.keyId = true := (h.contains _).1 (Option.isSome_of_eq_some hk)
  obtain ⟨i', hi'⟩ := Option.isSome_iff_exists.1 hcontains
  rw [renumber, hnode, Option.bind_some, hi', Option.getD_some]

/-- A node of `g` has a key, and this is found in both graphs. -/
theorem exists_indexOf (h : Alike g g') (hi : i < g.size) :
    ∃ k, g.indexOf k = some i ∧ g'.indexOf k = some (renumber g g' i) := by
  have hk : g.indexOf g.nodes[i].keyId = some i :=
    (h.source.index _ i).2 ⟨_, List.getElem?_eq_getElem hi, rfl⟩
  exact ⟨_, hk, h.indexOf_renumber hk⟩

/-- Graphs that are alike differ by a `Relabeling`, the one that goes by the keys. -/
theorem relabeling (h : Alike g g') : Relabeling g g' (renumber g g') where
  source := h.source
  target := h.target
  -- One number in the new graph is that of one key.
  injOn i hi j hj hij := by
    obtain ⟨k, hk, hk'⟩ := h.exists_indexOf hi
    obtain ⟨l, hl, hl'⟩ := h.exists_indexOf hj
    rw [hij] at hk'
    rw [h.target.indexOf_inj hk' hl', hl] at hk
    exact (Option.some.inj hk).symm
  surjOn i' hi' := by
    obtain ⟨node, hnode⟩ : ∃ node, g'.nodes[i']? = some node :=
      ⟨_, List.getElem?_eq_getElem hi'⟩
    have hk' := (h.target.index _ i').2 ⟨node, hnode, rfl⟩
    obtain ⟨i, hi⟩ := Option.isSome_iff_exists.1 ((h.contains _).2 (Option.isSome_of_eq_some hk'))
    refine ⟨i, h.source.neighborhoods ▸ h.source.lt_of_indexOf hi, ?_⟩
    rw [h.indexOf_renumber hi] at hk'
    exact Option.some.inj hk'
  hasEdge i hi j hj := by
    obtain ⟨k, hk, hk'⟩ := h.exists_indexOf hi
    obtain ⟨l, hl, hl'⟩ := h.exists_indexOf hj
    rw [← keyEdge_iff hk' hl', ← h.keyEdge, keyEdge_iff hk hl]

/-- The coefficient of a key is the same in both graphs if its cross degree is. Without a node in
one of them, it has none in the other. -/
theorem coefficientOf (h : Alike g g') (hcross : g'.crossDegreeOf k = g.crossDegreeOf k) :
    g'.coefficientOf k = g.coefficientOf k := by
  unfold StrongSetGraph.coefficientOf
  cases hk : g.indexOf k with
  | none =>
    have hk' : g'.indexOf k = none := by
      rw [← Option.not_isSome_iff_eq_none]
      intro hsome
      -- A node here would be a node there, by `contains`.
      have hcontains : (g.indexOf k).isSome = true := (h.contains k).2 hsome
      rw [hk] at hcontains
      exact Bool.false_ne_true hcontains
    rw [hk']
    rfl
  | some i =>
    have hk' := h.indexOf_renumber hk
    rw [crossDegreeOf, crossDegreeOf, hk, hk', Option.map_some, Option.map_some,
      Option.some.injEq] at hcross
    have hlt : i < g.size := h.source.neighborhoods ▸ h.source.lt_of_indexOf hk
    rw [hk', Option.map_some, Option.map_some, h.relabeling.localCoefficient hlt hcross]

end Alike

end StrongSetGraph

end WebOfTrust
