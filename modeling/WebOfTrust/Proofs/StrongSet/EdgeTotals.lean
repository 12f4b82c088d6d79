import WebOfTrust.Proofs.StrongSet.Clustering

/-!
# `WebOfTrust.Proofs.StrongSet.EdgeTotals`: edge ends are counted twice, edges once

A graph does not hold its edges, it holds the neighbours of its nodes, and the degree totals add up
how many these are. An edge is entered at both of its ends, once as coming in and once as going out,
so each of the two totals is the number of edges. The neighbours are sets: an edge that is added
again is no further edge. Certifications that are counted one by one agree with the edges only as
long as no two of them are between the same keys.

- `StrongSetGraph.WellFormed.edgeDegreeTotals_eq`: the totals of a well-formed graph;
- `StrongSetGraph.hasEdge_addEdges`: the edges of certifications;
- `StrongSetGraph.card_edgeSet_addEdges`: how many they are, if no certification comes twice.
-/

set_option autoImplicit false

namespace WebOfTrust

namespace StrongSetGraph

variable {g : StrongSetGraph} {i j : Nat}

/-! ### The set of edges -/

/-- An edge is a member of a `KeySet`, so `HasEdge` can be decided by looking it up. `edgeSet` is
filtered by this. -/
instance (g : StrongSetGraph) (i j : Nat) : Decidable (g.HasEdge i j) :=
  inferInstanceAs (Decidable (j ∈ (g.neighbors i).outgoing))

/-- The edges, as pairs of node numbers. Loops are among them, if there are any. `edgeDegreeTotals`
counts the same edges in two ways, one for each end. -/
def edgeSet (g : StrongSetGraph) : Finset (Nat × Nat) :=
  (Finset.range g.size ×ˢ Finset.range g.size).filter fun e => g.HasEdge e.1 e.2

/-- A number with neighbours is that of a node, as there are as many `neighborhoods` as nodes. -/
theorem WellFormed.lt_of_neighbors_ne (hg : g.WellFormed) (h : g.neighbors i ≠ {}) :
    i < g.size := by
  by_contra hi
  rw [← hg.neighborhoods] at hi
  apply h
  rw [neighbors, List.getD_eq_getElem?_getD, List.getElem?_eq_none (Nat.le_of_not_lt hi)]
  rfl

/-- Both ends of an edge are nodes. The second one is, because the edge is among its incoming ones.
The field `mirrored` of `WellFormed` says so. -/
theorem WellFormed.lt_of_hasEdge (hg : g.WellFormed) (h : g.HasEdge i j) :
    i < g.size ∧ j < g.size := by
  constructor
  · apply hg.lt_of_neighbors_ne
    intro hempty
    rw [HasEdge, hempty] at h
    exact Table.not_mem_empty j h
  · apply hg.lt_of_neighbors_ne
    intro hempty
    rw [← hg.mirrored, hempty] at h
    exact Table.not_mem_empty i h

/-- The members of `edgeSet` are the edges. Restricting both ends to numbers of nodes leaves none
out. -/
theorem WellFormed.mem_edgeSet (hg : g.WellFormed) : (i, j) ∈ g.edgeSet ↔ g.HasEdge i j := by
  rw [edgeSet, Finset.mem_filter, Finset.mem_product, Finset.mem_range, Finset.mem_range]
  exact and_iff_right_of_imp hg.lt_of_hasEdge

/-- The edges, counted by source and target as a double sum. The totals are brought into the same
form. -/
theorem card_edgeSet (g : StrongSetGraph) : g.edgeSet.card
    = ∑ i ∈ Finset.range g.size, ∑ j ∈ Finset.range g.size, if g.HasEdge i j then 1 else 0 := by
  rw [edgeSet, Finset.card_filter, Finset.sum_product]

/-! ### Degree totals -/

/-- A sum over all neighborhoods, as one over the numbers of their nodes. The induction is on the
list. The program adds up over a list; sums over a range can be exchanged by `Finset.sum_comm`. -/
theorem sum_map_eq_sum_range (f : Neighbors → Nat) (l : List Neighbors) :
    (l.map f).sum = ∑ i ∈ Finset.range l.length, f (l.getD i {}) := by
  induction l with
  | nil => rfl
  | cons n l ih =>
    -- the head is the term of node zero, which stands last in the split range
    rw [List.map_cons, List.sum_cons, ih, List.length_cons, Finset.sum_range_succ', Nat.add_comm]
    rfl

/-- Both totals are the number of edges: one goes through them by their sources, the other one by
their targets. So the totals of a graph never disagree with each other. -/
theorem WellFormed.edgeDegreeTotals_eq (hg : g.WellFormed) :
    g.edgeDegreeTotals = ⟨g.edgeSet.card, g.edgeSet.card⟩ := by
  have hincoming : ∀ j, (g.neighbors j).incoming.size
      = ∑ i ∈ Finset.range g.size, if g.HasEdge i j then 1 else 0 := fun j => by
    rw [← KeySet.sum_ite_mem fun i hi =>
      Finset.mem_range.2 (hg.lt_of_hasEdge ((hg.mirrored i j).1 hi)).1]
    simp only [hg.mirrored]
  have houtgoing : ∀ i, (g.neighbors i).outgoing.size
      = ∑ j ∈ Finset.range g.size, if g.HasEdge i j then 1 else 0 := fun i =>
    (KeySet.sum_ite_mem fun j hj => Finset.mem_range.2 (hg.lt_of_hasEdge hj).2).symm
  rw [edgeDegreeTotals, sum_map_eq_sum_range, sum_map_eq_sum_range, hg.neighborhoods, card_edgeSet,
    DegreeTotals.mk.injEq]
  constructor
  · -- Summing over the targets first makes no difference.
    rw [Finset.sum_comm]
    exact Finset.sum_congr rfl fun j _ => hincoming j
  · exact Finset.sum_congr rfl fun i _ => houtgoing i

/-! ### Edges of certifications -/

/-- The edge between two keys, if both have nodes. Whether it is in the graph is another question.
`HasEdge` answers that one. -/
def edge? (g : StrongSetGraph) (e : KeyId × KeyId) : Option (Nat × Nat) :=
  (g.indexOf e.1).bind fun i => (g.indexOf e.2).map fun j => (i, j)

/-- The pair of numbers that `edge?` gives are the numbers of both keys. -/
theorem edge?_eq_some_iff {e : KeyId × KeyId} :
    g.edge? e = some (i, j) ↔ g.indexOf e.1 = some i ∧ g.indexOf e.2 = some j := by
  simp [edge?, Option.bind_eq_some_iff]

/-- Two certifications of different keys or by different keys do not share an edge, by
`WellFormed.indexOf_inj` at both ends. -/
theorem WellFormed.edge?_inj (hg : g.WellFormed) {e e' : KeyId × KeyId}
    (h : g.edge? e = some (i, j)) (h' : g.edge? e' = some (i, j)) : e = e' := by
  rw [edge?_eq_some_iff] at h h'
  exact Prod.ext (hg.indexOf_inj h.1 h'.1) (hg.indexOf_inj h.2 h'.2)

/-- The second component of `addEdge` says whether both keys have nodes. -/
theorem addEdge_snd (g : StrongSetGraph) (signer signee : KeyId) :
    (g.addEdge signer signee).2 = (g.edge? (signer, signee)).isSome := by
  simp only [addEdge, edge?]
  cases g.indexOf signer <;> cases g.indexOf signee <;> rfl

/-- A call of `addEdge` changes no number of a key. -/
@[simp] theorem indexOf_addEdge (g : StrongSetGraph) (signer signee : KeyId) :
    (g.addEdge signer signee).1.indexOf = g.indexOf := by
  rw [addEdge]
  split <;> rfl

/-- Edges do not add nodes, so the edge of a pair of keys is the same before and after. It is a
consequence of `indexOf_addEdge`. -/
theorem edge?_addEdge (g : StrongSetGraph) (signer signee : KeyId) :
    (g.addEdge signer signee).1.edge? = g.edge? := by
  funext e
  rw [edge?, edge?, indexOf_addEdge]

/-- The graph with the edges of certifications. Those of keys without nodes are refused, and those
that come twice are entered once. The edges of a corpus are added in this way. -/
def addEdges (g : StrongSetGraph) (edges : List (KeyId × KeyId)) : StrongSetGraph :=
  (edges.map fun e => Call.addEdge e.1 e.2).foldl answer g

/-- Without certifications `addEdges` returns the same graph. -/
@[simp] theorem addEdges_nil (g : StrongSetGraph) : g.addEdges [] = g := rfl

/-- Certifications are added from the first to the last, each by `addEdge`. -/
@[simp] theorem addEdges_cons (g : StrongSetGraph) (e : KeyId × KeyId)
    (edges : List (KeyId × KeyId)) :
    g.addEdges (e :: edges) = (g.addEdge e.1 e.2).1.addEdges edges := rfl

/-- Two lists of certifications are added one after the other. Blocks are joined by this. -/
theorem addEdges_append (g : StrongSetGraph) (edges edges' : List (KeyId × KeyId)) :
    g.addEdges (edges ++ edges') = (g.addEdges edges).addEdges edges' := by
  rw [addEdges, List.map_append, List.foldl_append]
  rfl

/-- No list of certifications changes the number of a key. -/
@[simp] theorem indexOf_addEdges (g : StrongSetGraph) (edges : List (KeyId × KeyId)) :
    (g.addEdges edges).indexOf = g.indexOf := by
  induction edges generalizing g with
  | nil => rfl
  | cons e edges ih => rw [addEdges_cons, ih, indexOf_addEdge]

/-- No list of certifications changes what `edge?` gives for a pair, so it can be asked before or
after. -/
theorem edge?_addEdges (g : StrongSetGraph) (edges : List (KeyId × KeyId)) :
    (g.addEdges edges).edge? = g.edge? := by
  funext e
  rw [edge?, edge?, indexOf_addEdges]

/-- Adding certifications keeps `WellFormed`, by `WellFormed.foldl_answer`. -/
theorem WellFormed.addEdges (hg : g.WellFormed) (edges : List (KeyId × KeyId)) :
    (g.addEdges edges).WellFormed :=
  hg.foldl_answer _

/-- The edges after `addEdges` are those that were there and those that `edge?` gives for the
certifications. -/
theorem hasEdge_addEdges (hg : g.WellFormed) (edges : List (KeyId × KeyId)) :
    (g.addEdges edges).HasEdge i j ↔ (∃ e ∈ edges, g.edge? e = some (i, j)) ∨ g.HasEdge i j := by
  induction edges generalizing g with
  | nil => simp
  | cons e edges ih =>
    rw [addEdges_cons, ih (hg.addEdge e.1 e.2), edge?_addEdge, hasEdge_addEdge hg,
      ← edge?_eq_some_iff, List.exists_mem_cons_iff]
    exact or_left_comm.trans (or_assoc.symm)

/-- Certifications by others give no loops: different keys have different numbers. -/
theorem loopless_addEdges (hg : g.WellFormed) (hloop : g.Loopless)
    {edges : List (KeyId × KeyId)} (hedges : ∀ e ∈ edges, e.1 ≠ e.2) :
    (g.addEdges edges).Loopless := by
  intro i hi
  rcases (hasEdge_addEdges hg edges).1 hi with ⟨e, he, hedge⟩ | hi
  · obtain ⟨hissuer, hsignee⟩ := edge?_eq_some_iff.1 hedge
    exact hedges e he (hg.indexOf_inj hissuer hsignee)
  · exact hloop i hi

/-- If a graph has no edges yet and no certification comes twice, the certifications between its
nodes are counted as its edges are. `countP` counts those for which `edge?` gives an edge. -/
theorem card_edgeSet_addEdges (hg : g.WellFormed) (hnone : ∀ i j, ¬ g.HasEdge i j)
    {edges : List (KeyId × KeyId)} (hnodup : edges.Nodup) :
    (g.addEdges edges).edgeSet.card = edges.countP fun e => (g.edge? e).isSome := by
  have hedges : (g.addEdges edges).edgeSet = (edges.filterMap g.edge?).toFinset := by
    ext ⟨i, j⟩
    rw [(hg.addEdges edges).mem_edgeSet, hasEdge_addEdges hg, or_iff_left (hnone i j),
      List.mem_toFinset, List.mem_filterMap]
  have hdistinct : (edges.filterMap g.edge?).Nodup :=
    hnodup.filterMap fun e e' edge h h' => hg.edge?_inj h h'
  rw [hedges, List.toFinset_card_of_nodup hdistinct, List.length_filterMap_eq_countP]

end StrongSetGraph

end WebOfTrust
