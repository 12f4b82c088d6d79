import WebOfTrust.Proofs.StrongSet.Diagnostics
import WebOfTrust.Proofs.StrongSet.Relabeling

/-!
# `WebOfTrust.Proofs.StrongSet.LoadOrder`: what coefficients know of the order of loading

A graph gets its nodes one by one and then its edges. Of the nodes of one key the first one stays,
and the others are refused with all that they say of the key. An edge that comes again is the edge
that is there. So the order is forgotten but for one thing, which of the nodes of a key was the
first one, and a coefficient depends on that by the cross degree alone.

- `GivenNodes`, `GivenNodes.addNode`, `GivenNodes.foldl_answer`: a graph that gets its nodes;
- `GivenNodes.coefficientOf_addEdges`: two graphs that get the same edges;
- `Analyzer.clusteringOf_finish`: the coefficient of a key in a report;
- `clustering_of_load_order`: two sequences of calls, and two analyses of the same files.
-/

set_option autoImplicit false

namespace WebOfTrust

namespace StrongSetGraph

variable {g g' : StrongSetGraph} {nodes nodes' : List StrongSetNode}
  {edges edges' : List (KeyId × KeyId)} {k k' : KeyId}

/-! ### Nodes -/

/-- The cross degree that the first node of a key has. Later nodes of the key are not added, so
theirs does not count. `addNode` refuses them. -/
def firstCrossDegree? (nodes : List StrongSetNode) (k : KeyId) : Option UInt32 :=
  (nodes.find? (·.keyId = k)).map (·.crossDegree)

/-- A node behind `nodes` counts for its key if there is none of that key among them. `Option.or`
says just this. -/
theorem firstCrossDegree?_concat (nodes : List StrongSetNode) (node : StrongSetNode) (k : KeyId) :
    firstCrossDegree? (nodes ++ [node]) k =
      (firstCrossDegree? nodes k).or (if node.keyId = k then some node.crossDegree else none) := by
  rw [firstCrossDegree?, firstCrossDegree?, List.find?_append, List.find?_singleton, Option.map_or]
  by_cases h : node.keyId = k <;> simp [h]

/-- The cross degrees that `nodes` give to their keys, as pairs. Two lists that have the same pairs
may still differ in which pair of a key is first. -/
def crossDegrees (nodes : List StrongSetNode) : List (KeyId × UInt32) :=
  nodes.map fun node => (node.keyId, node.crossDegree)

/-- What `firstCrossDegree?` gives for a key is one of the pairs in `crossDegrees`. -/
theorem firstCrossDegree?_eq_some {c : UInt32} (h : firstCrossDegree? nodes k = some c) :
    (k, c) ∈ crossDegrees nodes := by
  obtain ⟨node, hnode, rfl⟩ := Option.map_eq_some_iff.1 h
  have hk : node.keyId = k := by simpa using List.find?_some hnode
  exact List.mem_map.2 ⟨node, List.mem_of_find?_eq_some hnode, Prod.ext hk rfl⟩

/-- Where the nodes of a key agree, it does not matter which of them is the first one: every pair in
`crossDegrees` is what `firstCrossDegree?` gives. -/
theorem firstCrossDegree?_eq_some_iff
    (hagree : ∀ p ∈ crossDegrees nodes, ∀ q ∈ crossDegrees nodes, p.1 = q.1 → p.2 = q.2)
    {c : UInt32} : firstCrossDegree? nodes k = some c ↔ (k, c) ∈ crossDegrees nodes := by
  refine ⟨firstCrossDegree?_eq_some, fun h => ?_⟩
  cases hfirst : firstCrossDegree? nodes k with
  | none =>
    obtain ⟨node, hnode, heq⟩ := List.mem_map.1 h
    rw [firstCrossDegree?, Option.map_eq_none_iff, List.find?_eq_none] at hfirst
    exact absurd (decide_eq_true (congrArg Prod.fst heq)) (hfirst node hnode)
  -- Some node is the first one, and agrees with the one that was given.
  | some c' =>
    have hc : c' = c := hagree _ (firstCrossDegree?_eq_some hfirst) _ h rfl
    rw [hc]

/-- So under the condition `hagree` nodes may come in any order and any number of times. Only the
set of their pairs is asked for. -/
theorem firstCrossDegree?_congr
    (hnodes : ∀ p, p ∈ crossDegrees nodes ↔ p ∈ crossDegrees nodes')
    (hagree : ∀ p ∈ crossDegrees nodes, ∀ q ∈ crossDegrees nodes, p.1 = q.1 → p.2 = q.2)
    (k : KeyId) : firstCrossDegree? nodes k = firstCrossDegree? nodes' k := by
  have hagree' : ∀ p ∈ crossDegrees nodes', ∀ q ∈ crossDegrees nodes', p.1 = q.1 → p.2 = q.2 :=
    fun p hp q hq => hagree p ((hnodes p).2 hp) q ((hnodes q).2 hq)
  ext c
  rw [firstCrossDegree?_eq_some_iff hagree, firstCrossDegree?_eq_some_iff hagree', hnodes]

/-- The cross degree of a number is that of the node which has it. `crossDegree` itself is total,
with zero for other numbers. -/
theorem crossDegree_of_getElem? {node : StrongSetNode} {i : Nat} (h : g.nodes[i]? = some node) :
    g.crossDegree i = node.crossDegree.toNat := by
  rw [crossDegree, h]

/-- `addNode` gives its cross degree to the key of the node if that key is new, and no other key
gets another one. It is `firstCrossDegree?_concat`, for graphs. -/
theorem WellFormed.crossDegreeOf_addNode (hg : g.WellFormed) (node : StrongSetNode) (k : KeyId) :
    (g.addNode node).1.crossDegreeOf k =
      (g.crossDegreeOf k).or (if node.keyId = k then some node.crossDegree.toNat else none) := by
  rw [StrongSetGraph.addNode]
  split
  · next hold =>
    by_cases hk : node.keyId = k
    · -- The key has a node, and with it a cross degree, which comes first.
      obtain ⟨i, hi⟩ := Option.isSome_iff_exists.1 hold
      rw [crossDegreeOf, ← hk, hi]
      rfl
    · rw [if_neg hk, Option.or_none]
  next hnew =>
  rw [contains, Option.not_isSome_iff_eq_none] at hnew
  show (Table.find? (g.index.insert node.keyId g.size) k).map _ = _
  rw [Table.find?_insert]
  by_cases hk : node.keyId = k
  · rw [if_pos hk.symm, if_pos hk, crossDegreeOf, ← hk, hnew, Option.map_some]
    exact congrArg some (crossDegree_of_getElem? List.getElem?_concat_length)
  · -- Another key keeps its number, and the nodes before the new one keep their places.
    rw [if_neg (Ne.symm hk), if_neg hk, Option.or_none, crossDegreeOf]
    show (g.indexOf k).map _ = _
    cases hi : g.indexOf k with
    | none => rfl
    | some i =>
      have hlt : i < g.nodes.length := by
        have hlt := hg.lt_of_indexOf hi
        rwa [hg.neighborhoods] at hlt
      rw [Option.map_some, Option.map_some, crossDegree, crossDegree,
        List.getElem?_append_left hlt]

/-- A graph that was given nodes, one by one, and no edge yet. It says all that coefficients depend
on, and nothing of how the nodes are numbered. Edges are added by `addEdges` later on. -/
structure GivenNodes (g : StrongSetGraph) (nodes : List StrongSetNode) : Prop where
  /-- It is well-formed, as any graph. -/
  wellFormed : g.WellFormed
  /-- No edge is there. -/
  edgeless : ∀ i j, ¬ g.HasEdge i j
  /-- The keys are those of the nodes that were given. -/
  contains : ∀ k, g.contains k = true ↔ k ∈ nodes.map StrongSetNode.keyId
  /-- Each has the cross degree of the first node that was given for it. -/
  crossDegreeOf : ∀ k, g.crossDegreeOf k = (firstCrossDegree? nodes k).map UInt32.toNat

/-- The empty graph was given no nodes. It is where a load of a connectivity table starts. -/
theorem givenNodes_empty : GivenNodes {} [] where
  wellFormed := wellFormed_empty
  edgeless _ j := Table.not_mem_empty j
  contains k := by simp [StrongSetGraph.contains, indexOf]
  crossDegreeOf k := by simp [StrongSetGraph.crossDegreeOf, indexOf, firstCrossDegree?]

/-- One node more is given by `addNode`, whether or not its key has one already. If it has, the
graph is the same and the first cross degree stays. -/
theorem GivenNodes.addNode (h : g.GivenNodes nodes) (node : StrongSetNode) :
    (g.addNode node).1.GivenNodes (nodes ++ [node]) where
  wellFormed := h.wellFormed.addNode node
  edgeless i j := by
    rw [HasEdge, neighbors_addNode]
    exact h.edgeless i j
  contains k := by
    rw [contains_addNode, h.contains, List.map_append, List.mem_append, List.map_singleton,
      List.mem_singleton]
  crossDegreeOf k := by
    rw [h.wellFormed.crossDegreeOf_addNode, h.crossDegreeOf, firstCrossDegree?_concat,
      Option.map_or]
    split <;> rfl

/-- Nodes are given one by one, by calls of `addNode`. The induction is on the nodes. -/
theorem GivenNodes.foldl_answer (h : g.GivenNodes nodes) (more : List StrongSetNode) :
    ((more.map Call.addNode).foldl answer g).GivenNodes (nodes ++ more) := by
  induction more generalizing g nodes with
  | nil => rwa [List.append_nil]
  | cons node more ih =>
    rw [← List.singleton_append, ← List.append_assoc]
    exact ih (h.addNode node)

/-- A change of nodes that leaves their ids and cross degrees, such as that of their centralities.
`enterRows_eq` says this of a centrality table. -/
theorem GivenNodes.mapNodes (h : g.GivenNodes nodes) {f : StrongSetNode → StrongSetNode}
    (hf : ∀ node, (f node).keyId = node.keyId ∧ (f node).crossDegree = node.crossDegree) :
    GivenNodes { g with nodes := g.nodes.map f } nodes where
  wellFormed := h.wellFormed.mapNodes fun node => (hf node).1
  edgeless := h.edgeless
  contains := h.contains
  crossDegreeOf k := by
    rw [← h.crossDegreeOf]
    -- Keys keep their numbers, so only the cross degree at a number is left to compare.
    show (g.indexOf k).map _ = (g.indexOf k).map _
    congr 1
    funext i
    rw [crossDegree, crossDegree, List.getElem?_map]
    cases g.nodes[i]? with
    | none => rfl
    | some node => exact congrArg UInt32.toNat (hf node).2

/-! ### Edges -/

/-- Edges do not bring new keys: `addEdges` leaves the index as it is. -/
theorem contains_addEdges (g : StrongSetGraph) (edges : List (KeyId × KeyId)) :
    (g.addEdges edges).contains = g.contains := by
  funext k
  rw [contains, contains, indexOf_addEdges]

/-- Edges do not change cross degrees either. These come from the connectivity table only, and are
not counted in the corpus. -/
theorem crossDegreeOf_addEdges (g : StrongSetGraph) (edges : List (KeyId × KeyId)) :
    (g.addEdges edges).crossDegreeOf = g.crossDegreeOf := by
  funext k
  have hcross : (g.addEdges edges).crossDegree = g.crossDegree := by
    funext i
    rw [crossDegree, crossDegree, nodes_addEdges]
  rw [crossDegreeOf, crossDegreeOf, indexOf_addEdges, hcross]

/-- The edges of a graph that had none, seen by keys, are the certifications between keys that it
`contains`. Numbers of nodes do not occur on the right, so two graphs can be compared. -/
theorem keyEdge_addEdges (hg : g.WellFormed) (hnone : ∀ i j, ¬ g.HasEdge i j) :
    (g.addEdges edges).KeyEdge k k' ↔
      (k, k') ∈ edges ∧ g.contains k = true ∧ g.contains k' = true := by
  unfold KeyEdge
  simp only [indexOf_addEdges, hasEdge_addEdges hg, hnone, or_false, edge?_eq_some_iff]
  constructor
  · -- The numbers of an edge belong to one pair of keys only.
    rintro ⟨i, j, hi, hj, e, he, hsigner, hsignee⟩
    rw [← hg.indexOf_inj hsigner hi, ← hg.indexOf_inj hsignee hj]
    exact ⟨he, Option.isSome_of_eq_some hsigner, Option.isSome_of_eq_some hsignee⟩
  · rintro ⟨he, hk, hk'⟩
    obtain ⟨i, hi⟩ := Option.isSome_iff_exists.1 hk
    obtain ⟨j, hj⟩ := Option.isSome_iff_exists.1 hk'
    exact ⟨i, j, hi, hj, (k, k'), he, hi, hj⟩

/-- Two graphs that get the same keys and then the same edges are alike. Orders and repetitions in
the lists have no part in it. `Alike` is what `Relabeling` needs. -/
theorem GivenNodes.alike (h : g.GivenNodes nodes) (h' : g'.GivenNodes nodes')
    (hkeys : ∀ k, k ∈ nodes.map StrongSetNode.keyId ↔ k ∈ nodes'.map StrongSetNode.keyId)
    (hedges : ∀ e, e ∈ edges ↔ e ∈ edges') : Alike (g.addEdges edges) (g'.addEdges edges') where
  source := h.wellFormed.addEdges edges
  target := h'.wellFormed.addEdges edges'
  contains k := by rw [contains_addEdges, contains_addEdges, h.contains, h'.contains, hkeys]
  keyEdge k k' := by
    rw [keyEdge_addEdges h.wellFormed h.edgeless, keyEdge_addEdges h'.wellFormed h'.edgeless,
      hedges, h.contains, h.contains, h'.contains, h'.contains, hkeys, hkeys]

/-- So a key has the same coefficient in both graphs, if `firstCrossDegree?` gives it the same cross
degree. That one is left out of `Alike`, because it may differ. -/
theorem GivenNodes.coefficientOf_addEdges (h : g.GivenNodes nodes) (h' : g'.GivenNodes nodes')
    (hkeys : ∀ k, k ∈ nodes.map StrongSetNode.keyId ↔ k ∈ nodes'.map StrongSetNode.keyId)
    (hedges : ∀ e, e ∈ edges ↔ e ∈ edges')
    (hcross : firstCrossDegree? nodes k = firstCrossDegree? nodes' k) :
    (g.addEdges edges).coefficientOf k = (g'.addEdges edges').coefficientOf k := by
  refine ((h.alike h' hkeys hedges).coefficientOf ?_).symm
  rw [crossDegreeOf_addEdges, crossDegreeOf_addEdges, h.crossDegreeOf, h'.crossDegreeOf, hcross]

/-- The graph of nodes that are added before all edges, as a connectivity table and a corpus are
loaded. It is a `build`, so what holds of all calls holds of it. -/
def buildFrom (nodes : List StrongSetNode) (edges : List (KeyId × KeyId)) : StrongSetGraph :=
  build (nodes.map Call.addNode ++ edges.map fun e => Call.addEdge e.1 e.2)

/-- The calls in two parts: all nodes first, then `addEdges`. -/
theorem buildFrom_eq (nodes : List StrongSetNode) (edges : List (KeyId × KeyId)) :
    buildFrom nodes edges = ((nodes.map Call.addNode).foldl answer {}).addEdges edges := by
  rw [buildFrom, build, List.foldl_append]
  rfl

/-- The nodes of the rows of strong keys, in the order of the table. Other rows give no node. -/
def strongNodes (rows : List ConnectivityRow) : List StrongSetNode :=
  (rows.filter (·.isStrong)).map ConnectivityRow.node

/-- Rows in another order give the nodes in another order, and no others. -/
theorem strongNodes_perm {rows rows' : List ConnectivityRow} (h : rows.Perm rows') :
    (strongNodes rows).Perm (strongNodes rows') :=
  (h.filter _).map _

/-- After `addRows` on the empty graph, this graph was given the nodes of the strong keys in the
table. -/
theorem givenNodes_addRows (rows : List ConnectivityRow) :
    (addRows {} rows).GivenNodes (strongNodes rows) := by
  have hnodes := givenNodes_empty.foldl_answer (strongNodes rows)
  rw [strongNodes, List.map_map] at hnodes
  exact hnodes

end StrongSetGraph

open StrongSetGraph

/-- The clustering coefficient that a report gives for a key, if the key is in its strong set.
Reports are compared by it, since their lists are in the order of the rows. -/
def Report.clusteringOf (r : Report) (k : KeyId) : Option Binary64 :=
  (r.strongSet.find? (·.keyId = k)).map (·.clustering)

namespace Analyzer

variable {a a' : Analyzer}

/-- The place of a node in a report is its number in the graph. The coefficient is entered by
`finish`. -/
theorem getElem?_strongSet (a : Analyzer) (i : Nat) :
    a.finish.strongSet[i]? = a.graph.nodes[i]?.map fun node =>
      { node with clustering := .ofFloat (a.graph.localCoefficient i).value } := by
  cases hnode : a.graph.nodes[i]? with
  | none =>
    show (clusteredNodes a.graph.nodes _)[i]? = none
    rw [clusteredNodes, List.getElem?_zipWith, hnode]
  | some node =>
    obtain ⟨node', hnode', hreported⟩ := a.strongSet_finish (List.getElem?_eq_some_iff.1 hnode).1
    rw [hnode, Option.some.injEq] at hnode'
    rw [hreported, hnode', Option.map_some]

/-- The node at place `i` of a report has the key with the number `i`, and the coefficient of that
number. -/
theorem of_getElem?_strongSet (hg : a.graph.WellFormed) (k : KeyId) {i : Nat}
    {node : StrongSetNode} (h : a.finish.strongSet[i]? = some node) :
    (node.keyId = k ↔ a.graph.indexOf k = some i) ∧
      node.clustering = .ofFloat (a.graph.localCoefficient i).value := by
  rw [getElem?_strongSet, Option.map_eq_some_iff] at h
  obtain ⟨source, hsource, rfl⟩ := h
  refine ⟨?_, rfl⟩
  show source.keyId = k ↔ _
  exact hg.keyId_eq_iff hsource

/-- A report gives the coefficients of the graph, key by key: `clusteringOf` is `coefficientOf`, as
a float. -/
theorem clusteringOf_finish (hg : a.graph.WellFormed) (k : KeyId) :
    a.finish.clusteringOf k = (a.graph.coefficientOf k).map fun c => .ofFloat c.value := by
  rw [Report.clusteringOf, coefficientOf]
  cases hk : a.graph.indexOf k with
  | none =>
    have hnone : a.finish.strongSet.find? (·.keyId = k) = none := by
      rw [List.find?_eq_none]
      intro node hnode hfound
      obtain ⟨i, hi⟩ := List.mem_iff_getElem?.1 hnode
      have hindex := (of_getElem?_strongSet hg k hi).1.1 (of_decide_eq_true hfound)
      rw [hk] at hindex
      cases hindex
    rw [hnone]
    rfl
  | some i =>
    obtain ⟨source, hsource, hid⟩ := (hg.index k i).1 hk
    cases hfound : a.finish.strongSet.find? (·.keyId = k) with
    | none =>
      have hreported := a.getElem?_strongSet i
      rw [hsource, Option.map_some] at hreported
      have hnot := List.find?_eq_none.1 hfound _ (List.mem_of_getElem? hreported)
      exact absurd (decide_eq_true hid) hnot
    | some node =>
      -- Whichever node is found, its number is that of the key.
      obtain ⟨j, hj⟩ := List.mem_iff_getElem?.1 (List.mem_of_find?_eq_some hfound)
      have hnode : node.keyId = k := by simpa using List.find?_some hfound
      obtain ⟨hkey, hclustering⟩ := of_getElem?_strongSet hg k hj
      have hindex := hkey.1 hnode
      rw [hk, Option.some.injEq] at hindex
      rw [Option.map_some, Option.map_some, Option.map_some, hclustering, hindex]

/-- `a` has loaded two tables and a corpus; of the tables the one with the nodes is `rows`. -/
def HasLoaded (a : Analyzer) (rows : List ConnectivityRow) (blocks : List EdgeBlock) : Prop :=
  ∃ settings year centrality corpus,
    Corpus.blocks Corpus.readingStage corpus = blocks.map .ok ∧
      (((start settings year).loadConnectivity rows).loadCentrality centrality).loadCorpus corpus
        = (a, none)

/-- The graph of two tables and a corpus: nodes were given to it, and then the edges of the corpus
were added. The centrality table in between changes nodes by `mapNodes`. -/
theorem HasLoaded.graph {rows : List ConnectivityRow} {blocks : List EdgeBlock}
    (h : a.HasLoaded rows blocks) :
    ∃ g : StrongSetGraph, g.GivenNodes (strongNodes rows) ∧
      a.graph = g.addEdges (Corpus.edges blocks) := by
  obtain ⟨settings, year, centrality, corpus, hblocks, hload⟩ := h
  obtain ⟨tables, _, htables, heq⟩ := (start settings year).loadConnectivity_eq rows
  have hnodes : ((start settings year).loadConnectivity rows).graph.GivenNodes
      (strongNodes rows) := by
    rw [heq]
    show tables.graph.GivenNodes _
    rw [htables.graph]
    exact givenNodes_addRows rows
  generalize (start settings year).loadConnectivity rows = a₀ at hload hnodes
  have hcentral : (a₀.loadCentrality centrality).graph.GivenNodes (strongNodes rows) := by
    -- A centrality table leaves ids and cross degrees as they are.
    rw [loadCentrality, hnodes.wellFormed.applyCentrality_eq]
    refine hnodes.mapNodes fun node => ?_
    obtain ⟨_, _, hnode⟩ := enterRows_eq a₀.graph.size centrality node
    rw [hnode]
    exact ⟨rfl, rfl⟩
  obtain ⟨loaded, _, hloaded, -, hcorpus⟩ := (a₀.loadCentrality centrality).loadCorpus_eq hblocks
  refine ⟨_, hcentral, ?_⟩
  rw [hcorpus, Prod.mk.injEq] at hload
  rw [← hload.1]
  exact hloaded.graph

/-- If the reader gives `blocks` without an error, then an analysis that has loaded two tables and
this corpus satisfies `HasLoaded`. The examples of this module are of this form. -/
theorem hasLoaded_of_blocks {corpus : Source} {blocks : List EdgeBlock}
    (hblocks : Corpus.blocks Corpus.readingStage corpus = blocks.map .ok)
    (settings : AnalyticsSettings) (year : Nat) (rows : List ConnectivityRow)
    (centrality : List CentralityRow) :
    HasLoaded ((((start settings year).loadConnectivity rows).loadCentrality
      centrality).loadCorpus corpus).1 rows blocks := by
  obtain ⟨_, _, -, -, heq⟩ := loadCorpus_eq
    (((start settings year).loadConnectivity rows).loadCentrality centrality) hblocks
  exact ⟨settings, year, centrality, corpus, hblocks, by rw [heq]⟩

end Analyzer

/-- Neither the order of the nodes nor that of the edges matters to a coefficient, nor how often
they come, but for the first node of the key, which gives the cross degree. So it does not matter at
all where the nodes of a key agree on that. The three parts are about lists of nodes, about graphs,
and about reports. -/
theorem clustering_of_load_order :
    (∀ {nodes nodes' : List StrongSetNode},
      (∀ p, p ∈ crossDegrees nodes ↔ p ∈ crossDegrees nodes') →
      (∀ p ∈ crossDegrees nodes, ∀ q ∈ crossDegrees nodes, p.1 = q.1 → p.2 = q.2) →
      ∀ k, firstCrossDegree? nodes k = firstCrossDegree? nodes' k) ∧
    (∀ {nodes nodes' : List StrongSetNode} {edges edges' : List (KeyId × KeyId)},
      (∀ k, k ∈ nodes.map StrongSetNode.keyId ↔ k ∈ nodes'.map StrongSetNode.keyId) →
      (∀ e, e ∈ edges ↔ e ∈ edges') →
      ∀ k, firstCrossDegree? nodes k = firstCrossDegree? nodes' k →
        (buildFrom nodes edges).coefficientOf k = (buildFrom nodes' edges').coefficientOf k) ∧
    (∀ {a a' : Analyzer} {rows rows' : List ConnectivityRow} {blocks blocks' : List EdgeBlock},
      a.HasLoaded rows blocks → a'.HasLoaded rows' blocks' → rows.Perm rows' →
      (∀ e, e ∈ Corpus.edges blocks ↔ e ∈ Corpus.edges blocks') →
      ∀ k, firstCrossDegree? (strongNodes rows) k = firstCrossDegree? (strongNodes rows') k →
        a.finish.clusteringOf k = a'.finish.clusteringOf k) := by
  refine ⟨firstCrossDegree?_congr, ?_, ?_⟩
  · intro nodes nodes' edges edges' hkeys hedges k hcross
    rw [buildFrom_eq, buildFrom_eq]
    have hnodes := givenNodes_empty.foldl_answer nodes
    have hnodes' := givenNodes_empty.foldl_answer nodes'
    exact hnodes.coefficientOf_addEdges hnodes' hkeys hedges hcross
  · -- A report is that of its graph, so the second part applies.
    intro a a' rows rows' blocks blocks' h h' hperm hedges k hcross
    obtain ⟨g, hg, hgraph⟩ := h.graph
    obtain ⟨g', hg', hgraph'⟩ := h'.graph
    have hkeys : ∀ k, k ∈ (strongNodes rows).map StrongSetNode.keyId ↔
        k ∈ (strongNodes rows').map StrongSetNode.keyId := fun _ =>
      ((strongNodes_perm hperm).map _).mem_iff
    rw [Analyzer.clusteringOf_finish (hgraph ▸ hg.wellFormed.addEdges _),
      Analyzer.clusteringOf_finish (hgraph' ▸ hg'.wellFormed.addEdges _), hgraph, hgraph',
      hg.coefficientOf_addEdges hg' hkeys hedges hcross]

/-- Rows of strong keys, each with a cross degree. Their other columns are constants, as no
coefficient depends on them. -/
def listedRows (rows : List (String × UInt32)) : List ConnectivityRow :=
  rows.map fun row => ⟨.ofText row.1, ⟨0⟩, 2, 2, row.2, 2, 2, row.2, 1, true⟩

/-- Blocks of keys, each with the keys that certified it, as `Corpus.blocks` reads them from
`listedCorpus`. -/
def listedBlocks (blocks : List (String × List String)) : List EdgeBlock :=
  blocks.map fun b => ⟨.ofText b.1, b.2.map fun issuer =>
    ⟨.ofText issuer, "2001-01-01", "", "", .generic, .dsa, .sha1, 4⟩⟩

/-- The text of a corpus of these blocks. `blocks_mutualBlocks` reads one of them. -/
def listedCorpus (blocks : List (String × List String)) : Source :=
  .ofString (Text.unlines (blocks.flatMap fun b =>
    ("p" ++ b.1) :: b.2.map fun issuer => "s" ++ issuer ++ ";2001-01-01;;;0;17;2;4"))

/-- Three keys that certify each other, so that each of them has the coefficient one. -/
def mutualBlocks : List (String × List String) :=
  [("AA", ["BB", "CC"]), ("BB", ["AA", "CC"]), ("CC", ["AA", "BB"])]

/-- The same certifications in another order, one of them twice, in two blocks for one key. It has
the same edges as `mutualBlocks`. -/
def shuffledBlocks : List (String × List String) :=
  [("CC", ["BB"]), ("AA", ["CC", "BB", "CC"]), ("BB", ["CC", "AA"]), ("CC", ["AA"])]

/-- The corpus of the three keys is read as their blocks. The text is cut into lines by
`Source.ofString_unlines`, and the rest is computed. -/
theorem blocks_mutualBlocks : Corpus.blocks Corpus.readingStage (listedCorpus mutualBlocks)
    = (listedBlocks mutualBlocks).map .ok := by
  rw [listedCorpus, Source.ofString_unlines]
  decide +kernel

/-- Rows and certifications in two orders give `AA` the same coefficient, in graphs and in reports.
The second row of `AA` has another cross degree, but stays behind the first one. -/
theorem clustering_of_load_order_shuffled :
    let rows := listedRows [("AA", 2), ("BB", 2), ("CC", 2), ("AA", 1)]
    let rows' := listedRows [("CC", 2), ("AA", 2), ("AA", 1), ("BB", 2)]
    let edges := Corpus.edges (listedBlocks mutualBlocks)
    let edges' := Corpus.edges (listedBlocks shuffledBlocks)
    edges ≠ edges' ∧
      (buildFrom (strongNodes rows) edges).coefficientOf (.ofText "AA") = some (.ratio 16 16) ∧
      (buildFrom (strongNodes rows') edges').coefficientOf (.ofText "AA") = some (.ratio 16 16) ∧
      (∃ a a' : Analyzer, a.HasLoaded rows (listedBlocks mutualBlocks) ∧
        a'.HasLoaded rows' (listedBlocks shuffledBlocks) ∧
        a.finish.clusteringOf (.ofText "AA") = a'.finish.clusteringOf (.ofText "AA")) ∧
      ∀ k, firstCrossDegree? (strongNodes (rows.take 3)) k
        = firstCrossDegree? (strongNodes (rows.take 3).reverse) k := by
  intro rows rows' edges edges'
  obtain ⟨hagree, hbuild, hfiles⟩ := clustering_of_load_order
  have hperm : rows.Perm rows' := by decide +kernel
  have hforth : ∀ e ∈ edges, e ∈ edges' := by decide +kernel
  have hback : ∀ e ∈ edges', e ∈ edges := by decide +kernel
  have hedges : ∀ e, e ∈ edges ↔ e ∈ edges' := fun e => ⟨hforth e, hback e⟩
  have hkeys : ∀ k, k ∈ (strongNodes rows).map StrongSetNode.keyId ↔
      k ∈ (strongNodes rows').map StrongSetNode.keyId := fun _ =>
    ((strongNodes_perm hperm).map _).mem_iff
  have hcross : firstCrossDegree? (strongNodes rows) (.ofText "AA")
      = firstCrossDegree? (strongNodes rows') (.ofText "AA") := by decide +kernel
  have hcoefficient : (buildFrom (strongNodes rows) edges).coefficientOf (.ofText "AA")
      = some (.ratio 16 16) := by decide +kernel
  -- The text that the analysis reads has to be brought into a form that the kernel evaluates.
  have hshuffled : Corpus.blocks Corpus.readingStage (listedCorpus shuffledBlocks)
      = (listedBlocks shuffledBlocks).map .ok := by
    rw [listedCorpus, Source.ofString_unlines]
    decide +kernel
  have hloaded := Analyzer.hasLoaded_of_blocks blocks_mutualBlocks {} 2011 rows []
  have hloaded' := Analyzer.hasLoaded_of_blocks hshuffled {} 2011 rows' []
  refine ⟨by decide +kernel, hcoefficient, ?_,
    ⟨_, _, hloaded, hloaded', hfiles hloaded hloaded' hperm hedges _ hcross⟩,
    hagree (fun _ => ?_) (by decide +kernel)⟩
  · rw [← hbuild hkeys hedges _ hcross, hcoefficient]
  · exact ((strongNodes_perm (List.reverse_perm _)).map _).mem_iff.symm

/-- A row that is moved before another one of its key takes its place, with another cross degree. So
the coefficient of that key depends on the order of the rows. Its `crossDegrees` are the same in
both orders. -/
theorem clustering_depends_on_first_row :
    let rows := listedRows [("AA", 2), ("AA", 1), ("BB", 2), ("CC", 2)]
    let rows' := listedRows [("AA", 1), ("AA", 2), ("BB", 2), ("CC", 2)]
    let edges := Corpus.edges (listedBlocks mutualBlocks)
    rows.Perm rows' ∧
      (∀ p, p ∈ crossDegrees (strongNodes rows) ↔ p ∈ crossDegrees (strongNodes rows')) ∧
      (buildFrom (strongNodes rows) edges).coefficientOf (.ofText "AA") = some (.ratio 16 16) ∧
      (buildFrom (strongNodes rows') edges).coefficientOf (.ofText "AA") = some (.ratio 16 20) ∧
      ∃ a a' : Analyzer, a.HasLoaded rows (listedBlocks mutualBlocks) ∧
        a'.HasLoaded rows' (listedBlocks mutualBlocks) ∧
        a.finish.clusteringOf (.ofText "AA") = some ⟨0x3FF0000000000000⟩ ∧
        a'.finish.clusteringOf (.ofText "AA") = some ⟨0x3FE999999999999A⟩ := by
  intro rows rows' edges
  have hperm : rows.Perm rows' := by decide +kernel
  have hreported : ((((Analyzer.start {} 2011).loadConnectivity rows).loadCentrality
        []).loadCorpus (listedCorpus mutualBlocks)).1.finish.clusteringOf (.ofText "AA")
          = some ⟨0x3FF0000000000000⟩ ∧
      ((((Analyzer.start {} 2011).loadConnectivity rows').loadCentrality
        []).loadCorpus (listedCorpus mutualBlocks)).1.finish.clusteringOf (.ofText "AA")
          = some ⟨0x3FE999999999999A⟩ := by
    rw [listedCorpus, Source.ofString_unlines]
    decide +kernel
  exact ⟨hperm, fun _ => ((strongNodes_perm hperm).map _).mem_iff, by decide +kernel,
    by decide +kernel, _, _, Analyzer.hasLoaded_of_blocks blocks_mutualBlocks {} 2011 rows [],
    Analyzer.hasLoaded_of_blocks blocks_mutualBlocks {} 2011 rows' [], hreported.1, hreported.2⟩

end WebOfTrust
