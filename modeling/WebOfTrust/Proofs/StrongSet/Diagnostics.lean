import WebOfTrust.Proofs.StrongSet.Centrality
import WebOfTrust.Proofs.StrongSet.Chunks
import WebOfTrust.Proofs.StrongSet.Loading

/-!
# `WebOfTrust.Proofs.StrongSet.Diagnostics`: what a report without diagnostics says

The files of an analysis come from different programs, and the report tells where they disagree. It
compares their keys, and the sums of the degrees with the number of edges. The cross degree of a
node is compared with nothing, although the denominator of the clustering coefficient depends on it.
It is noticed where it makes the denominator zero or less. One that is too large and does not go
that far leaves the denominator positive and too small. The coefficient may then be greater than one
in a report that has nothing to tell.

- `Analyzer.Consistent`, `Analyzer.Loaded.diagnostics_eq_nil_iff`: what a report without diagnostics
  means;
- `Analyzer.ReportedRatio`: what is certain of a coefficient in such a report;
- `clustering_of_silent_report`: both, for files of any content;
- `clustering_above_one_unreported`: files that disagree in one cross degree.
-/

set_option autoImplicit false

namespace WebOfTrust

open StrongSetGraph

namespace StrongSetGraph

variable {g : StrongSetGraph} {i : Nat}

/-! ### Centralities and coefficients -/

/-- A change of nodes that leaves their two degrees leaves `nodeTotals`. Entering centralities is
such a change. -/
theorem nodeTotals_mapNodes {f : StrongSetNode → StrongSetNode}
    (hf : ∀ node, (f node).inDegree = node.inDegree ∧ (f node).outDegree = node.outDegree) :
    nodeTotals { g with nodes := g.nodes.map f } = g.nodeTotals := by
  simp only [nodeTotals, List.map_map, Function.comp_def, hf]

/-- Certifications do not change what is known of nodes, only which of them are neighbours:
`addEdges` leaves the list `nodes`. -/
theorem nodes_addEdges (g : StrongSetGraph) (edges : List (KeyId × KeyId)) :
    (g.addEdges edges).nodes = g.nodes := by
  induction edges generalizing g with
  | nil => rfl
  | cons e edges ih =>
    rw [addEdges_cons, ih, addEdge]
    split <;> rfl

/-- How large the cross degree may be for a coefficient that is at most one. Nothing is asked of the
graph beyond `WellFormed`, so loops are allowed. -/
theorem WellFormed.triangleSum_le_denominator_iff (hg : g.WellFormed) (i : Nat) :
    (g.triangleSum i : Int) ≤ g.clusteringDenominator i ↔
      g.triangleSum i + 4 * g.crossDegree i
        ≤ 2 * g.pairWeight i + 4 * g.reciprocalDegree i := by
  rw [hg.clusteringDenominator_eq]
  omega

end StrongSetGraph

namespace Analyzer

variable {a : Analyzer}

/-! ### Diagnostics -/

/-- The report adds to the diagnostics of the files those of the totals and of the denominators. A
report without diagnostics is one in which all three are silent. -/
theorem finish_diagnostics_eq_nil_iff (a : Analyzer) : a.finish.diagnostics = [] ↔
    a.diagnostics = [] ∧ a.graph.edgeDegreeTotals = a.tableTotals ∧
      ∀ i < a.graph.size, a.graph.localCoefficient i ≠ .degenerate := by
  have hdegenerate : (a.graph.clusteringCoefficientsInChunks a.workers).countP (· = .degenerate) = 0
      ↔ ∀ i < a.graph.size, a.graph.localCoefficient i ≠ .degenerate := by
    rw [clusteringCoefficientsInChunks_eq, clusteringCoefficients, List.countP_eq_zero]
    simp
  rw [← hdegenerate]
  simp only [finish, List.append_eq_nil_iff, and_assoc]
  refine and_congr_right fun _ => and_congr ?_ ?_ <;> split <;> simp_all

/-- The files agree, as far as they are compared. `blocks` are the corpus. The cross degrees in the
table are not compared with anything, apart from `denominators`. -/
structure Consistent (rows : List ConnectivityRow) (centrality : List CentralityRow)
    (blocks : List EdgeBlock) (a : Analyzer) : Prop where
  /-- No strong key has two rows. -/
  distinct : (strongIds rows).Nodup
  /-- The degrees in the table add up to the number of edges, either way. -/
  totals : a.graph.nodeTotals = ⟨a.graph.edgeSet.card, a.graph.edgeSet.card⟩
  /-- The centrality table lists strong keys only. -/
  centrality : ∀ row ∈ centrality, row.keyId ∈ strongIds rows
  /-- All keys of the corpus are in the connectivity table. -/
  corpus : ∀ k ∈ Corpus.keys blocks, k ∈ rows.map ConnectivityRow.keyId
  /-- No node with two neighbours or more has a denominator that is zero or negative. -/
  denominators : ∀ i < a.graph.size, a.graph.localCoefficient i ≠ .degenerate

/-- An analysis behind its two tables, with what is known of it in terms of `rows` and `centrality`.
It is what a corpus is loaded into. -/
structure Prepared (rows : List ConnectivityRow) (centrality : List CentralityRow) (a : Analyzer) :
    Prop where
  /-- The graph is one that nodes were added to. -/
  wellFormed : a.graph.WellFormed
  /-- It has no edges yet. -/
  edgeless : ∀ i j, ¬ a.graph.HasEdge i j
  /-- Its nodes are the strong keys. -/
  contains : ∀ k, a.graph.contains k = true ↔ k ∈ strongIds rows
  /-- The reachable set has all keys of the table. -/
  reachable : ∀ k, k ∈ a.reachable ↔ k ∈ rows.map ConnectivityRow.keyId
  /-- The totals of the table are those of the nodes, repeated rows left out. -/
  totals : a.tableTotals = a.graph.nodeTotals
  /-- What has been told so far is about the two tables. -/
  diagnostics : a.diagnostics = [] ↔ (strongIds rows).Nodup ∧
    a.tableTotals.incoming = a.tableTotals.outgoing ∧
    ∀ row ∈ centrality, row.keyId ∈ strongIds rows

/-- A connectivity table prepares a new analysis, without any centralities. -/
theorem prepared_loadConnectivity (settings : AnalyticsSettings) (year : Nat)
    (rows : List ConnectivityRow) :
    Prepared rows [] ((start settings year).loadConnectivity rows) := by
  obtain ⟨loaded, repeated, hloaded, heq⟩ := (start settings year).loadConnectivity_eq rows
  have hgraph : loaded.graph = addRows {} rows := hloaded.graph
  have hrepeated := hloaded.repeated_eq_zero_iff rfl
  rw [heq]
  refine ⟨?_, ?_, fun k => ?_, fun k => ?_, hloaded.totals rfl, ?_⟩
  · show loaded.graph.WellFormed
    rw [hgraph]
    exact wellFormed_empty.addRows rows
  · show ∀ i j, ¬ loaded.graph.HasEdge i j
    rw [hgraph]
    exact not_hasEdge_addRows rows
  · show loaded.graph.contains k = true ↔ _
    rw [hgraph, contains_addRows]
    exact or_iff_right (by simp [StrongSetGraph.contains, indexOf])
  · exact (hloaded.reachable k).trans (or_iff_right (Table.not_mem_empty k))
  · -- Each of the two diagnostics is told exactly if its condition fails.
    show [] ++ tableDiagnostics repeated loaded.tableTotals = [] ↔ _
    rw [List.nil_append, tableDiagnostics, List.append_eq_nil_iff, ← hrepeated]
    refine and_congr ?_ ?_ <;> split <;> simp_all

/-- A centrality table behind the connectivity table adds the diagnostics of strangers, and leaves
degrees and ids. `enterRows_eq` says the latter. -/
theorem Prepared.loadCentrality {rows : List ConnectivityRow} (h : Prepared rows [] a)
    (centrality : List CentralityRow) : Prepared rows centrality (a.loadCentrality centrality) := by
  have hframe : ∀ node, ∃ absolute relative, enterRows a.graph.size centrality node
      = { node with absoluteCentrality := absolute, relativeCentrality := relative } :=
    enterRows_eq a.graph.size centrality
  rw [Analyzer.loadCentrality, h.wellFormed.applyCentrality_eq]
  refine ⟨h.wellFormed.mapNodes fun node => ?_, h.edgeless, h.contains, h.reachable, ?_, ?_⟩
  · obtain ⟨_, _, hnode⟩ := hframe node
    rw [hnode]
  · refine h.totals.trans (nodeTotals_mapNodes fun node => ?_).symm
    obtain ⟨_, _, hnode⟩ := hframe node
    rw [hnode]
    exact ⟨rfl, rfl⟩
  · -- A row is no stranger if its key is among the strong ones of the table.
    have hstrangers : centrality.filterMap a.graph.strangerRow? = [] ↔
        ∀ row ∈ centrality, row.keyId ∈ strongIds rows := by
      rw [List.filterMap_eq_nil_iff]
      refine forall₂_congr fun row _ => ?_
      rw [← h.contains, strangerRow?]
      split <;> simp_all
    show a.diagnostics ++ centrality.filterMap a.graph.strangerRow? = [] ↔ _ ∧
      a.tableTotals.incoming = a.tableTotals.outgoing ∧ _
    rw [List.append_eq_nil_iff, h.diagnostics, hstrangers]
    simp [and_assoc]

/-- An analysis behind its two tables and a corpus, with what is known of it in terms of `rows`,
`centrality` and `blocks`. -/
structure Loaded (rows : List ConnectivityRow) (centrality : List CentralityRow)
    (blocks : List EdgeBlock) (a : Analyzer) : Prop where
  wellFormed : a.graph.WellFormed
  loopless : (∀ e ∈ Corpus.edges blocks, e.1 ≠ e.2) → a.graph.Loopless
  totals : a.tableTotals = a.graph.nodeTotals
  diagnostics : a.diagnostics = [] ↔ (strongIds rows).Nodup ∧
    a.tableTotals.incoming = a.tableTotals.outgoing ∧
    (∀ row ∈ centrality, row.keyId ∈ strongIds rows) ∧
    ∀ k ∈ Corpus.keys blocks, k ∈ rows.map ConnectivityRow.keyId

/-- A corpus that is read without error brings the edges and the diagnostics of its keys. The graph
gets them by `addEdges`, the diagnostics by `noteKey`. -/
theorem Prepared.loadCorpus {rows : List ConnectivityRow} {centrality : List CentralityRow}
    (h : Prepared rows centrality a) {corpus : Source} {blocks : List EdgeBlock}
    (hblocks : Corpus.blocks Corpus.readingStage corpus = blocks.map .ok) :
    Loaded rows centrality blocks (a.loadCorpus corpus).1 := by
  obtain ⟨loaded, missing, hloaded, hmissing, heq⟩ := a.loadCorpus_eq hblocks
  rw [heq]
  refine ⟨?_, fun hedges => ?_, ?_, ?_⟩
  · show loaded.graph.WellFormed
    rw [hloaded.graph]
    exact h.wellFormed.addEdges _
  · show loaded.graph.Loopless
    rw [hloaded.graph]
    exact loopless_addEdges h.wellFormed (fun i => h.edgeless i i) hedges
  · show loaded.tableTotals = loaded.graph.nodeTotals
    rw [hloaded.graph, nodeTotals, nodes_addEdges, hloaded.frame]
    exact h.totals
  · -- Nothing is missing if every key of the corpus has a row.
    have hnone : missing.isEmpty = true ↔
        ∀ k ∈ Corpus.keys blocks, k ∈ rows.map ConnectivityRow.keyId := by
      rw [Table.isEmpty_iff]
      refine forall_congr' fun k => ?_
      rw [hmissing, h.reachable, not_and', not_not]
    have htotals : loaded.tableTotals = a.tableTotals := by rw [hloaded.frame]
    show (a.diagnostics ++ if missing.isEmpty then [] else [.keysOutsideTable missing.size]) = [] ↔
      _ ∧ loaded.tableTotals.incoming = loaded.tableTotals.outgoing ∧ _
    rw [List.append_eq_nil_iff, h.diagnostics, ← hnone, htotals, and_assoc, and_assoc]
    refine and_congr_right fun _ => and_congr_right fun _ => and_congr_right fun _ => ?_
    split <;> simp_all

/-- The report has no diagnostics exactly if the files are `Consistent`, which is to say that they
agree as far as they are compared. -/
theorem Loaded.diagnostics_eq_nil_iff {rows : List ConnectivityRow}
    {centrality : List CentralityRow} {blocks : List EdgeBlock}
    (h : Loaded rows centrality blocks a) :
    a.finish.diagnostics = [] ↔ Consistent rows centrality blocks a := by
  rw [finish_diagnostics_eq_nil_iff, h.diagnostics, h.wellFormed.edgeDegreeTotals_eq, h.totals]
  constructor
  · rintro ⟨⟨hdistinct, -, hcentrality, hcorpus⟩, htotals, hdenominators⟩
    exact ⟨hdistinct, htotals.symm, hcentrality, hcorpus, hdenominators⟩
  · intro hc
    -- The totals of the table agree with each other, since both are the number of edges.
    refine ⟨⟨hc.distinct, ?_, hc.centrality, hc.corpus⟩, hc.totals.symm, hc.denominators⟩
    rw [hc.totals]

/-! ### Coefficients -/

/-- The coefficient of the node `i` in a report is `T / D`. -/
structure ReportedRatio (a : Analyzer) (i T D : Nat) : Prop where
  /-- It is computed as this fraction. -/
  coefficient : a.graph.localCoefficient i = .ratio T D
  /-- The report has its value, at the place of the node. -/
  reported : ∃ node, a.graph.nodes[i]? = some node ∧
    a.finish.strongSet[i]? = some { node with clustering := .ofFloat (Coefficient.ratio T D).value }
  /-- The fraction has a value. -/
  pos : 0 < D
  /-- A node with fewer than two neighbours has coefficient zero. -/
  few : (a.graph.neighborSet i).card < 2 → T = 0
  /-- It is at most one as long as the cross degree in the connectivity table is not too large. -/
  le_iff : 2 ≤ (a.graph.neighborSet i).card → (T ≤ D ↔
    T + 4 * a.graph.crossDegree i ≤ 2 * a.graph.pairWeight i + 4 * a.graph.reciprocalDegree i)
  /-- The number of neighbours with edges in both directions is not, nor is anything less. -/
  le : a.graph.crossDegree i ≤ a.graph.reciprocalDegree i → T ≤ D

/-- A report has the nodes of the graph, in their order, each with its coefficient. For numbers of
nodes it says more than `getElem?_strongSet`. -/
theorem strongSet_finish (a : Analyzer) {i : Nat} (hi : i < a.graph.size) :
    ∃ node, a.graph.nodes[i]? = some node ∧ a.finish.strongSet[i]?
      = some { node with clustering := .ofFloat (a.graph.localCoefficient i).value } := by
  have hnode := List.getElem?_eq_getElem hi
  refine ⟨_, hnode, ?_⟩
  show (clusteredNodes a.graph.nodes (a.graph.clusteringCoefficientsInChunks a.workers))[i]? = _
  rw [clusteringCoefficientsInChunks_eq, clusteredNodes, List.getElem?_zipWith, hnode,
    getElem?_clusteringCoefficients a.graph hi]

/-- A node that is not degenerate has a ratio. Whether it has two neighbours or fewer decides
between the two kinds of bounds. With two neighbours or more, the bounds come from
`triangleSum_le_denominator_iff`. -/
theorem reportedRatio (hg : a.graph.WellFormed) (hloop : a.graph.Loopless) {i : Nat}
    (hi : i < a.graph.size) (hdegenerate : a.graph.localCoefficient i ≠ .degenerate) :
    ∃ T D, ReportedRatio a i T D := by
  obtain ⟨node, hnode, hreported⟩ := a.strongSet_finish hi
  have hcard : (a.graph.neighborSet i).card = (a.graph.neighbors i).all.size :=
    KeySet.card_members _
  -- With fewer than two neighbours there is no triangle to count, and `localCoefficient` says 0/1.
  by_cases hfew : (a.graph.neighbors i).all.size < 2
  · have hcoefficient : a.graph.localCoefficient i = .ratio 0 1 := by
      rw [localCoefficient, if_pos hfew]
    rw [hcoefficient] at hreported
    exact ⟨0, 1, hcoefficient, ⟨node, hnode, hreported⟩, Nat.one_pos, fun _ => rfl,
      fun h => absurd h (by omega), fun _ => Nat.zero_le 1⟩
  · have hpos : ¬ a.graph.clusteringDenominator i ≤ 0 := fun hle =>
      hdegenerate (by rw [localCoefficient, if_neg hfew, if_pos hle])
    have hcoefficient : a.graph.localCoefficient i
        = .ratio (a.graph.triangleSum i) (a.graph.clusteringDenominator i).toNat := by
      rw [localCoefficient, if_neg hfew, if_neg hpos]
    have hle_iff := hg.triangleSum_le_denominator_iff i
    have hle := triangleSum_le hg hloop i
    rw [hcoefficient] at hreported
    exact ⟨_, _, hcoefficient, ⟨node, hnode, hreported⟩, by omega, fun h => absurd h (by omega),
      fun _ => by omega, fun hcross => by omega⟩

end Analyzer

/-- A report of three files has no diagnostics if they agree as far as they are compared. Then every
coefficient is a ratio, and the cross degree in the connectivity table decides whether it is at most
one. `ReportedRatio` has that as its last two fields. -/
theorem clustering_of_silent_report {settings : AnalyticsSettings} {year : Nat}
    {rows : List ConnectivityRow} {centrality : List CentralityRow} {corpus : Source}
    {a : Analyzer}
    (hload : (((Analyzer.start settings year).loadConnectivity rows).loadCentrality
      centrality).loadCorpus corpus = (a, none))
    (hforeign : ∀ b, .ok b ∈ Corpus.blocks Corpus.readingStage corpus →
      ∀ s ∈ b.entries, s.issuer ≠ b.signee) :
    ∃ blocks, Corpus.blocks Corpus.readingStage corpus = blocks.map .ok ∧
      (a.finish.diagnostics = [] ↔ a.Consistent rows centrality blocks) ∧
      (a.finish.diagnostics = [] → ∀ i < a.graph.size, ∃ T D, a.ReportedRatio i T D) := by
  obtain ⟨blocks, hblocks⟩ := Analyzer.blocks_of_loadCorpus hload
  have hloaded := ((Analyzer.prepared_loadConnectivity settings year rows).loadCentrality
    centrality).loadCorpus hblocks
  rw [hload] at hloaded
  have hloop : a.graph.Loopless := hloaded.loopless <| Corpus.ne_of_mem_edges fun b hb =>
    hforeign b (hblocks ▸ List.mem_map_of_mem hb)
  refine ⟨blocks, hblocks, hloaded.diagnostics_eq_nil_iff, fun hsilent i hi => ?_⟩
  have hconsistent := hloaded.diagnostics_eq_nil_iff.1 hsilent
  exact Analyzer.reportedRatio hloaded.wellFormed hloop hi (hconsistent.denominators i hi)

/-- A connectivity table of four strong keys. The last three certify each other, the first one is
certified by two of them and certifies two of them, and `cross` is its cross degree. -/
def fourRows (cross : UInt32) : List ConnectivityRow :=
  let row (k : KeyId) (incoming outgoing cross : UInt32) : ConnectivityRow :=
    ⟨k, ⟨0⟩, incoming, outgoing, cross, incoming, outgoing, cross, 1, true⟩
  [row (.ofText "AA") 2 2 cross, row (.ofText "BB") 2 3 2, row (.ofText "CC") 3 3 3,
    row (.ofText "DD") 3 2 2]

/-- The certifications of the four keys, in the order of `fourRows`. -/
def fourKeyCorpus : Source :=
  let line (issuer : String) : String := "s" ++ issuer ++ ";2001-01-01;;;0;17;2;4"
  .ofString (Text.unlines
    ["pAA", line "BB", line "CC", "pBB", line "CC", line "DD", "pCC", line "AA", line "BB",
      line "DD", "pDD", line "AA", line "BB", line "CC"])

/-- An analysis of the four keys, with the cross degree of the first one left open. The corpus says
that it is 1. -/
def fourKeyAnalysis (cross : UInt32) : Analyzer × Option ResolutionError :=
  (((Analyzer.start {} 2011).loadConnectivity (fourRows cross)).loadCentrality []).loadCorpus
    fourKeyCorpus

/-- No key certifies itself in this corpus, so `clustering_of_silent_report` applies to it. -/
theorem foreign_fourKeyCorpus : ∀ b, .ok b ∈ Corpus.blocks Corpus.readingStage fourKeyCorpus →
    ∀ s ∈ b.entries, s.issuer ≠ b.signee := by
  -- As a boolean, so that all blocks are computed at once.
  have hcheck : (Corpus.blocks Corpus.readingStage fourKeyCorpus).all (fun item =>
      match item with
      | .ok b => b.entries.all fun s => s.issuer ≠ b.signee
      | .error _ => false) = true := by
    rw [fourKeyCorpus, Source.ofString_unlines]
    decide +kernel
  intro b hb s hs
  have hentries := List.all_eq_true.1 (List.all_eq_true.1 hcheck _ hb) s hs
  exact of_decide_eq_true hentries

/-- With the right cross degree the report is silent, and the coefficient of the first key is one.
The node has the number 0. -/
theorem clustering_of_silent_report_fourKeys :
    ∃ a, fourKeyAnalysis 1 = (a, none) ∧ a.finish.diagnostics = [] ∧
      a.graph.localCoefficient 0 = .ratio 20 20 ∧
      ∃ blocks, Corpus.blocks Corpus.readingStage fourKeyCorpus = blocks.map .ok ∧
        a.Consistent (fourRows 1) [] blocks ∧ ∃ T D, a.ReportedRatio 0 T D := by
  have hfacts : (fourKeyAnalysis 1).2 = none ∧ (fourKeyAnalysis 1).1.finish.diagnostics = [] ∧
      (fourKeyAnalysis 1).1.graph.localCoefficient 0 = .ratio 20 20 ∧
      0 < (fourKeyAnalysis 1).1.graph.size := by
    rw [fourKeyAnalysis, fourKeyCorpus, Source.ofString_unlines]
    decide +kernel
  -- The kernel evaluates the analysis once; all else is the general theorem.
  generalize hrun : fourKeyAnalysis 1 = run at hfacts
  obtain ⟨a, error⟩ := run
  obtain ⟨rfl, hsilent, hcoefficient, hsize⟩ := hfacts
  obtain ⟨blocks, hblocks, hiff, hratios⟩ := clustering_of_silent_report hrun foreign_fourKeyCorpus
  exact ⟨a, rfl, hsilent, hcoefficient, blocks, hblocks, hiff.1 hsilent, hratios hsilent 0 hsize⟩

/-- With a greater cross degree the coefficient of the first key is five quarters, and the report
has nothing to tell. The corpus is the same as in `clustering_of_silent_report_fourKeys`. -/
theorem clustering_above_one_unreported :
    ∃ a, fourKeyAnalysis 2 = (a, none) ∧ a.finish.diagnostics = [] ∧
      a.graph.localCoefficient 0 = .ratio 20 16 ∧
      ∀ b, .ok b ∈ Corpus.blocks Corpus.readingStage fourKeyCorpus →
        ∀ s ∈ b.entries, s.issuer ≠ b.signee := by
  have hfacts : (fourKeyAnalysis 2).2 = none ∧ (fourKeyAnalysis 2).1.finish.diagnostics = [] ∧
      (fourKeyAnalysis 2).1.graph.localCoefficient 0 = .ratio 20 16 := by
    rw [fourKeyAnalysis, fourKeyCorpus, Source.ofString_unlines]
    decide +kernel
  generalize hrun : fourKeyAnalysis 2 = run at hfacts
  obtain ⟨a, error⟩ := run
  obtain ⟨rfl, hsilent, hcoefficient⟩ := hfacts
  exact ⟨a, rfl, hsilent, hcoefficient, foreign_fourKeyCorpus⟩

end WebOfTrust
