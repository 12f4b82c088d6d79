import WebOfTrust.Proofs.StrongSet.CertificationTables
import WebOfTrust.Proofs.StrongSet.LoadOrder

/-!
# `WebOfTrust.Proofs.StrongSet.Series`: how many values a series has

A report describes three series of numbers, and beside them it gives the sizes of two sets. All of
them come from the rows of connectivity tables, but a key that has several rows is treated in two
ways. It is one member of the reachable set and one node, and its node has the values of its first
row as a strong key, whatever its other rows say. The series of the reachable set on the other hand
has a distance for each row. So the strong series are as long as their set is large, and the
reachable one is as long as there are rows, which is the size of its set only if no key has two.

Tables of other kinds change neither sets nor series, whether or not they are read to their ends.

- `StrongSetGraph.ListsNodes.addRow`, `StrongSetGraph.ListsNodes.addRows`: the nodes of rows;
- `Analyzer.HasRows.load`: what every load keeps;
- `Analyzer.series_of_rows`: the series of a report, behind any loads.
-/

set_option autoImplicit false

namespace WebOfTrust

/-- What a row gives to its node for good: its degrees are not among it, as no series is made of
them. Centrality tables and corpora leave these three alone. -/
def StrongSetNode.listed (node : StrongSetNode) : KeyId × Binary64 × UInt32 :=
  (node.keyId, node.meanDistance, node.eccentricity)

/-- The first row that makes a key a strong one. Rows of the key in front of it may be there, if
they are not of strong keys. `ListsNodes` says that its values are those of the node. -/
def firstStrongRow? (rows : List ConnectivityRow) (k : KeyId) : Option ConnectivityRow :=
  rows.find? fun r => r.isStrong && r.keyId = k

/-- Of two tables, the first one with such a row decides. It is core's lemma on `List.find?`. -/
theorem firstStrongRow?_append (rows more : List ConnectivityRow) (k : KeyId) :
    firstStrongRow? (rows ++ more) k = (firstStrongRow? rows k).or (firstStrongRow? more k) :=
  List.find?_append

/-- A key that is not among `strongIds` has no such row. -/
theorem firstStrongRow?_eq_none {rows : List ConnectivityRow} {k : KeyId}
    (h : k ∉ StrongSetGraph.strongIds rows) : firstStrongRow? rows k = none := by
  rw [firstStrongRow?, List.find?_eq_none]
  intro row hrow hstrong
  rw [Bool.and_eq_true, decide_eq_true_eq] at hstrong
  exact h (List.mem_map.2 ⟨row, List.mem_filter.2 ⟨hrow, hstrong.1⟩, hstrong.2⟩)

/-! ### The nodes of rows -/

namespace StrongSetGraph

variable {g g' : StrongSetGraph} {rows : List ConnectivityRow}

/-- The nodes are the strong keys of the rows, each with the values of its first row. Rows behind it
are of no effect, since `addNode` keeps the node that is there. -/
structure ListsNodes (g : StrongSetGraph) (rows : List ConnectivityRow) : Prop where
  /-- The graph is well-formed. -/
  wellFormed : g.WellFormed
  /-- Its keys are those of strong rows. -/
  contains : ∀ k, g.contains k = true ↔ k ∈ strongIds rows
  /-- A node has the values of the first such row of its key. -/
  values : ∀ node ∈ g.nodes, ∃ row, firstStrongRow? rows node.keyId = some row ∧
    node.listed = row.node.listed

/-- The empty graph lists the nodes of no rows. It is the graph of a new analysis. -/
theorem listsNodes_empty : ListsNodes {} [] where
  wellFormed := wellFormed_empty
  contains k := by simp [contains, indexOf, strongIds]
  values node h := by cases h

/-- If the key of `row` is new among the strong ones, `row` is its first row from now on. -/
theorem firstStrongRow?_concat_new {row : ConnectivityRow} (hnew : row.keyId ∉ strongIds rows)
    (hstrong : row.isStrong = true) :
    firstStrongRow? (rows ++ [row]) row.keyId = some row := by
  rw [firstStrongRow?_append, firstStrongRow?_eq_none hnew, Option.none_or, firstStrongRow?,
    List.find?_singleton, if_pos]
  rw [hstrong, decide_eq_true rfl, Bool.and_true]

/-- One row more. If its key has a node, the values of that node stay as they are; if not, they are
those of the row. -/
theorem ListsNodes.addRow (h : g.ListsNodes rows) (row : ConnectivityRow) :
    (g.addRows [row]).ListsNodes (rows ++ [row]) := by
  have hold : ∀ node ∈ g.nodes, ∃ r, firstStrongRow? (rows ++ [row]) node.keyId = some r ∧
      node.listed = r.node.listed := fun node hnode => by
    obtain ⟨r, hr, hlisted⟩ := h.values node hnode
    exact ⟨r, by rw [firstStrongRow?_append, hr, Option.some_or], hlisted⟩
  refine ⟨h.wellFormed.addRows [row], fun k => ?_, ?_⟩
  · rw [contains_addRows, h.contains, ← List.mem_append]
    simp only [strongIds, List.filter_append, List.map_append]
  · rw [addRows_cons]
    split
    · next hstrong =>
      show ∀ node ∈ (g.addNode row.node).1.nodes, _
      -- The key of the row is that of a node already, or there is a node more.
      rcases g.addNode_cases row.node with ⟨-, hadd⟩ | ⟨hnew, g', hadd, hnodes⟩
      · rw [hadd]
        exact hold
      · rw [hadd, hnodes]
        intro node hnode
        rcases List.mem_append.1 hnode with hnode | hnode
        · exact hold node hnode
        · rw [List.mem_singleton.1 hnode]
          refine ⟨row, firstStrongRow?_concat_new (fun hmem => ?_) hstrong, rfl⟩
          exact Bool.eq_false_iff.1 hnew ((h.contains row.keyId).2 hmem)
    · exact hold

/-- The rows of a table, one after the other. The induction is on `more`, for any graph and any rows
before. -/
theorem ListsNodes.addRows (h : g.ListsNodes rows) (more : List ConnectivityRow) :
    (g.addRows more).ListsNodes (rows ++ more) := by
  induction more generalizing g rows with
  | nil =>
    rw [List.append_nil]
    exact h
  | cons row more ih =>
    rw [addRows_cons, ← List.singleton_append, ← List.append_assoc]
    have hrow := h.addRow row
    rw [addRows_cons] at hrow
    exact ih hrow

/-- Nothing else that is done to a graph changes a node in what its row gave. Centralities and edges
are the two cases. The index has to be the same as well, since `ListsNodes` finds nodes by it. -/
theorem ListsNodes.of_listed_eq (h : g.ListsNodes rows) (hg : g'.WellFormed)
    (hindex : g'.indexOf = g.indexOf)
    (hlisted : g'.nodes.map StrongSetNode.listed = g.nodes.map StrongSetNode.listed) :
    g'.ListsNodes rows where
  wellFormed := hg
  contains k := by
    rw [← h.contains, StrongSetGraph.contains, StrongSetGraph.contains, hindex]
  values node hnode := by
    have hmem : node.listed ∈ g.nodes.map StrongSetNode.listed :=
      hlisted ▸ List.mem_map_of_mem hnode
    obtain ⟨old, hold, heq⟩ := List.mem_map.1 hmem
    rw [← heq, ← show old.keyId = node.keyId from congrArg Prod.fst heq]
    exact h.values old hold

/-- A centrality table leaves what the rows gave, as `enterRows_eq` shows for each node. -/
theorem ListsNodes.applyCentrality (h : g.ListsNodes rows) (more : List CentralityRow) :
    (g.applyCentrality more).1.ListsNodes rows := by
  -- Only the two centralities of a node are written, and a connectivity row gives neither.
  have hlisted : ∀ node, (enterRows g.size more node).listed = node.listed := fun node => by
    obtain ⟨absolute, relative, heq⟩ := enterRows_eq g.size more node
    rw [heq]
    rfl
  have hgraph := congrArg Prod.fst (h.wellFormed.applyCentrality_eq more)
  refine h.of_listed_eq ?_ (g.indexOf_applyCentrality more) ?_
  · rw [hgraph]
    exact h.wellFormed.mapNodes fun node => congrArg Prod.fst (hlisted node)
  · rw [hgraph, List.map_map]
    exact List.map_congr_left fun node _ => hlisted node

/-- Certifications leave what the rows gave, too: `addEdges` does not touch the list of nodes. -/
theorem ListsNodes.addEdges (h : g.ListsNodes rows) (edges : List (KeyId × KeyId)) :
    (g.addEdges edges).ListsNodes rows :=
  h.of_listed_eq (h.wellFormed.addEdges edges) (g.indexOf_addEdges edges)
    (congrArg _ (g.nodes_addEdges edges))

end StrongSetGraph

open StrongSetGraph

/-! ### Loads -/

namespace Analyzer

/-- The rows that a load adds: those of its table for `connectivity`, and none for the other
three. -/
def Load.rows : Load → List ConnectivityRow
  | .connectivity rows => rows
  | _ => []

/-- The connectivity tables that have been loaded had these rows. It is kept by every load,
including those that fail. Here `rows` are those of all these tables, one behind the other. -/
structure HasRows (a : Analyzer) (rows : List ConnectivityRow) : Prop where
  /-- Each key is in the set once. -/
  reachable : ∀ k, k ∈ a.reachable ↔ k ∈ rows.map ConnectivityRow.keyId
  /-- Each row has added a distance, in the order of the rows. -/
  distances : a.distances = rows.map ConnectivityRow.meanDistance
  /-- The strong keys are the nodes. -/
  nodes : a.graph.ListsNodes rows

variable {a : Analyzer} {rows : List ConnectivityRow}

/-- A new analysis has had no rows. It is where the induction over loads starts. -/
theorem hasRows_start (settings : AnalyticsSettings) (year : Nat) :
    (start settings year).HasRows [] where
  reachable k := by
    rw [List.map_nil]
    exact iff_of_false (Table.not_mem_empty k) List.not_mem_nil
  distances := rfl
  nodes := listsNodes_empty

/-- Each row adds its `meanDistance` to the list, be it that of a key that is known already. This is
the point where the series and the set part. -/
theorem distances_foldl (a : Analyzer) (n : Nat) (rows : List ConnectivityRow) :
    (rows.foldl loadRow (a, n)).1.distances
      = a.distances ++ rows.map ConnectivityRow.meanDistance := by
  induction rows generalizing a n with
  | nil => exact (List.append_nil _).symm
  | cons row rows ih =>
    -- Whatever becomes of the key, the distance is pushed.
    have hrow : (loadRow (a, n) row).1.distances = a.distances ++ [row.meanDistance] := by
      simp only [loadRow]
      split
      · split <;> rfl
      · rfl
    rw [List.foldl_cons, ih, hrow, List.append_assoc, List.singleton_append, List.map_cons]

/-- A connectivity table adds its rows behind the others. The three fields come from `RowsLoaded`,
`distances_foldl` and `ListsNodes.addRows`. -/
theorem HasRows.loadConnectivity (h : a.HasRows rows) (more : List ConnectivityRow) :
    (a.loadConnectivity more).HasRows (rows ++ more) := by
  have hloaded := rowsLoaded_foldl a 0 more
  refine ⟨fun k => (hloaded.reachable k).trans ?_, ?_, ?_⟩
  · rw [h.reachable, List.map_append, List.mem_append]
  · rw [List.map_append, ← h.distances]
    exact distances_foldl a 0 more
  · show (more.foldl loadRow (a, 0)).1.graph.ListsNodes _
    rw [hloaded.graph]
    exact h.nodes.addRows more

/-- A corpus has no rows, whether or not it is read to its end. What was read of it has been loaded
as edges, by `exists_edgesLoaded_loadCorpus`. -/
theorem HasRows.loadCorpus (h : a.HasRows rows) (corpus : Source) :
    (a.loadCorpus corpus).1.HasRows rows := by
  obtain ⟨edges, loaded, digest, diagnostics, hloaded, heq⟩ :=
    a.exists_edgesLoaded_loadCorpus corpus
  rw [heq]
  refine ⟨?_, ?_, ?_⟩
  · show ∀ k, k ∈ loaded.reachable ↔ _
    rw [hloaded.reachable]
    exact h.reachable
  · show loaded.distances = _
    rw [hloaded.frame]
    exact h.distances
  · show loaded.graph.ListsNodes rows
    rw [hloaded.graph]
    exact h.nodes.addEdges edges

/-- The step of the invariant `HasRows`, with one case per kind of file. -/
theorem HasRows.load (h : a.HasRows rows) (file : Load) :
    (a.load file).HasRows (rows ++ file.rows) := by
  cases file with
  | connectivity more => exact h.loadConnectivity more
  | centrality more =>
    rw [show (Load.centrality more).rows = [] from rfl, List.append_nil]
    exact ⟨h.reachable, h.distances, h.nodes.applyCentrality more⟩
  | corpus corpus =>
    rw [show (Load.corpus corpus).rows = [] from rfl, List.append_nil]
    exact h.loadCorpus corpus
  | status table =>
    rw [show (Load.status table).rows = [] from rfl, List.append_nil, Analyzer.load, loadStatus]
    cases a.countLines { currentYear := a.currentYear } (StatusTable.lines table) with
    -- A status table that cannot be counted leaves the analysis as it was.
    | error e => exact h
    | ok t => exact ⟨h.reachable, h.distances, h.nodes⟩

/-- Loads one after the other have the rows of all of them. The induction is on `files`. -/
theorem HasRows.foldl_load (h : a.HasRows rows) (files : List Load) :
    (files.foldl Analyzer.load a).HasRows (rows ++ files.flatMap Load.rows) := by
  induction files generalizing a rows with
  | nil =>
    rw [List.flatMap_nil, List.append_nil]
    exact h
  | cons file files ih =>
    rw [List.foldl_cons, List.flatMap_cons, ← List.append_assoc]
    exact ih (h.load file)

/-! ### Reports -/

/-- A report changes nothing in a node but its coefficient, so any `f` that does not look at
`clustering` sees the nodes of the graph. -/
theorem map_strongSet {α : Type} {f : StrongSetNode → α}
    (hf : ∀ (node : StrongSetNode) x, f { node with clustering := x } = f node) (a : Analyzer) :
    a.finish.strongSet.map f = a.graph.nodes.map f := by
  refine List.ext_getElem? fun i => ?_
  rw [List.getElem?_map, List.getElem?_map, getElem?_strongSet, Option.map_map]
  exact congrArg (fun f => Option.map f _) (funext fun node => hf node _)

end Analyzer

/-- The eccentricity of a node, as a number of a series. `describe` takes floats. -/
def StrongSetNode.eccentricityValue (node : StrongSetNode) : Binary64 :=
  .ofFloat (floatOfCount node.eccentricity.toNat)

/-- What the sets and the series of a report have from the `rows` of its connectivity tables. The
fields on the reachable set speak of rows, those on the strong set of different keys. -/
structure Report.HasSeriesOf (r : Report) (rows : List ConnectivityRow) : Prop where
  /-- The reachable set has each key once. -/
  reachableSize : r.reachableSetSize = (rows.map ConnectivityRow.keyId).toFinset.card
  /-- Its series has a distance for each row. -/
  reachableDistance : r.reachableDistance = describe (rows.map ConnectivityRow.meanDistance)
  /-- There is no series of an empty set, and of no other. -/
  reachable_eq_none_iff : r.reachableDistance = none ↔ r.reachableSetSize = 0
  /-- Rows of one key are counted apart. -/
  reachable_count : ∀ d, r.reachableDistance = some d → d.count = rows.length
  /-- So the series is longer than the set is large, as soon as a key has two rows. -/
  reachable_count_eq_iff : ∀ d, r.reachableDistance = some d →
    (d.count = r.reachableSetSize ↔ (rows.map ConnectivityRow.keyId).Nodup)
  /-- The strong set has each strong key once. -/
  strongSize : r.strongSetSize = (strongIds rows).toFinset.card
  /-- The strong set has each of its keys once, with the values of the first of its rows. -/
  nodup : (r.strongSet.map StrongSetNode.keyId).Nodup
  /-- Its members are the keys with a strong row. -/
  mem_iff : ∀ k, k ∈ r.strongSet.map StrongSetNode.keyId ↔ k ∈ strongIds rows
  /-- Later rows of a key change nothing. -/
  values : ∀ node ∈ r.strongSet, ∃ row, firstStrongRow? rows node.keyId = some row ∧
    node.meanDistance = row.meanDistance ∧ node.eccentricity = row.eccentricity
  /-- Its series have a value for each of them. -/
  strongDistance : r.strongDistance = describe (r.strongSet.map StrongSetNode.meanDistance)
  /-- The eccentricities are turned into numbers. -/
  strongEccentricity :
    r.strongEccentricity = describe (r.strongSet.map StrongSetNode.eccentricityValue)
  /-- Both series are there unless the set is empty. -/
  strong_eq_none_iff : (r.strongDistance = none ↔ r.strongSetSize = 0) ∧
    (r.strongEccentricity = none ↔ r.strongSetSize = 0)
  /-- They are as long as the set is large, unlike that of the reachable set. -/
  strong_count : ∀ d, r.strongDistance = some d ∨ r.strongEccentricity = some d →
    d.count = r.strongSetSize

namespace Analyzer

variable {a : Analyzer} {rows : List ConnectivityRow}

/-- The size of the reachable set is the number of different keys, as a set has none of them
twice. -/
theorem HasRows.reachableSize (h : a.HasRows rows) :
    a.finish.reachableSetSize = (rows.map ConnectivityRow.keyId).toFinset.card := by
  show a.reachable.size = _
  rw [← KeySet.card_members]
  congr 1
  ext k
  rw [KeySet.mem_members, h.reachable, List.mem_toFinset]

/-- A report has each node of the graph, so its list is as long as `strongSetSize` says. -/
theorem length_strongSet (a : Analyzer) : a.finish.strongSet.length = a.finish.strongSetSize := by
  rw [← List.length_map StrongSetNode.keyId, a.map_strongSet fun _ _ => rfl, List.length_map]
  rfl

/-- A series over the strong set has as many values as the set has keys, so it is empty only if the
set is. `describe` gives `none` for no values. -/
theorem describe_strongSet_eq_none_iff (a : Analyzer) (f : StrongSetNode → Binary64) :
    describe (a.finish.strongSet.map f) = none ↔ a.finish.strongSetSize = 0 := by
  rw [describe_eq_none_iff, List.map_eq_nil_iff, ← List.length_eq_zero_iff, length_strongSet]

/-- The `count` of a series over the strong set is the size of that set. -/
theorem count_of_describe_strongSet {f : StrongSetNode → Binary64} {d : Description}
    (h : describe (a.finish.strongSet.map f) = some d) : d.count = a.finish.strongSetSize := by
  rw [count_of_describe h, List.length_map, length_strongSet]

/-- The values of a key are those of its node, and these are from its first row. `firstStrongRow?`
finds that row. -/
theorem HasRows.values_strongSet (h : a.HasRows rows) {node : StrongSetNode}
    (hnode : node ∈ a.finish.strongSet) : ∃ row, firstStrongRow? rows node.keyId = some row ∧
      node.meanDistance = row.meanDistance ∧ node.eccentricity = row.eccentricity := by
  have hlisted : a.finish.strongSet.map StrongSetNode.listed
      = a.graph.nodes.map StrongSetNode.listed := a.map_strongSet fun _ _ => rfl
  obtain ⟨old, hold, heq⟩ := List.mem_map.1 (hlisted ▸ List.mem_map_of_mem hnode)
  obtain ⟨row, hrow, hvalues⟩ := h.nodes.values old hold
  rw [show old.keyId = node.keyId from congrArg Prod.fst heq] at hrow
  exact ⟨row, hrow, Prod.mk.inj (congrArg Prod.snd (heq.symm.trans hvalues))⟩

/-- An analysis with these rows reports the series that `Report.HasSeriesOf` asks for. Only the
fields about counts and emptiness are more than a field of `HasRows`. -/
theorem HasRows.hasSeriesOf (h : a.HasRows rows) : a.finish.HasSeriesOf rows := by
  have hdistance : a.finish.reachableDistance = describe (rows.map ConnectivityRow.meanDistance) :=
    congrArg describe h.distances
  have hcount : ∀ d, a.finish.reachableDistance = some d → d.count = rows.length := fun d hd => by
    rw [count_of_describe (hdistance ▸ hd), List.length_map]
  have hids : a.finish.strongSet.map StrongSetNode.keyId = a.graph.nodes.map StrongSetNode.keyId :=
    a.map_strongSet fun _ _ => rfl
  exact {
    reachableSize := h.reachableSize
    reachableDistance := hdistance
    reachable_eq_none_iff := by
      rw [hdistance, describe_eq_none_iff, h.reachableSize, Finset.card_eq_zero,
        List.toFinset_eq_empty_iff, List.map_eq_nil_iff, List.map_eq_nil_iff]
    reachable_count := hcount
    reachable_count_eq_iff := fun d hd => by
      rw [hcount d hd, h.reachableSize, ← List.length_map ConnectivityRow.keyId, eq_comm]
      -- A list without repetition is as long as its set is large, and no other list is.
      exact Multiset.toFinset_card_eq_card_iff_nodup
    strongSize := h.nodes.wellFormed.size_eq_card h.nodes.contains
    nodup := by
      rw [hids]
      exact h.nodes.wellFormed.nodup_keyIds
    mem_iff := fun k => by
      rw [hids, h.nodes.wellFormed.mem_keyIds_iff, h.nodes.contains]
    values := fun _ hnode => h.values_strongSet hnode
    strongDistance := rfl
    strongEccentricity := rfl
    strong_eq_none_iff := ⟨a.describe_strongSet_eq_none_iff _, a.describe_strongSet_eq_none_iff _⟩
    strong_count := fun _ hd => hd.elim count_of_describe_strongSet count_of_describe_strongSet }

/-- The sets and series of a report, whatever files were loaded in whatever order, and whichever of
the loads failed. It is `HasRows.foldl_load` and `HasRows.hasSeriesOf`, from `start` on. -/
theorem series_of_rows (settings : AnalyticsSettings) (year : Nat) (files : List Load) :
    (files.foldl Analyzer.load (start settings year)).finish.HasSeriesOf
      (files.flatMap Load.rows) := by
  have hrows := (hasRows_start settings year).foldl_load files
  rw [List.nil_append] at hrows
  exact hrows.hasSeriesOf

/-- A key with two rows is one member of the reachable set, and two values of its series. So the
equality in `reachable_count_eq_iff` fails for it. -/
theorem repeated_key_counts_twice :
    let row : ConnectivityRow := ⟨⟨"AA", by decide⟩, ⟨0⟩, 0, 0, 0, 0, 0, 0, 0, false⟩
    let report := ((start {} 2011).loadConnectivity [row, row]).finish
    report.reachableSetSize = 1 ∧ ∃ d, report.reachableDistance = some d ∧ d.count = 2 := by
  intro row report
  exact ⟨by decide +kernel, _, rfl, rfl⟩

end Analyzer

end WebOfTrust
