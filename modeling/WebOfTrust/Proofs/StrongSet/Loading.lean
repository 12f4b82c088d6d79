import WebOfTrust.Proofs.CanonicalCorpus
import WebOfTrust.Proofs.StrongSet.EdgeTotals
import WebOfTrust.StrongSet.Analyzer

/-!
# `WebOfTrust.Proofs.StrongSet.Loading`: what an analysis takes from its files

The connectivity table gives the nodes of the graph and the corpus gives its edges. Both are loaded
in one go, row by row and certification by certification, and each row and each certification is
counted on the way. What is left behind is told by the rows and by the certifications, and all else
stays as it was.

- `Analyzer.RowsLoaded`, `Analyzer.loadConnectivity_eq`: the connectivity table;
- `Analyzer.EdgesLoaded`, `Analyzer.loadCorpus_eq`: the corpus.
-/

set_option autoImplicit false

namespace WebOfTrust

open StrongSetGraph

/-! ### The connectivity table -/

namespace StrongSetGraph

variable {g : StrongSetGraph}

/-- The graph with the nodes of the rows of strong keys. Other rows are of no concern to it.
Repeated ids are refused by `addNode`. -/
def addRows (g : StrongSetGraph) (rows : List ConnectivityRow) : StrongSetGraph :=
  ((rows.filter (·.isStrong)).map fun r => Call.addNode r.node).foldl answer g

/-- Adding rows keeps `WellFormed`, as adding any calls does. -/
theorem WellFormed.addRows (hg : g.WellFormed) (rows : List ConnectivityRow) :
    (g.addRows rows).WellFormed :=
  hg.foldl_answer _

/-- Rows are added from the first to the last, and one of a key that is not strong is skipped. -/
theorem addRows_cons (g : StrongSetGraph) (row : ConnectivityRow) (rows : List ConnectivityRow) :
    g.addRows (row :: rows)
      = (if row.isStrong then (g.addNode row.node).1 else g).addRows rows := by
  rw [StrongSetGraph.addRows, List.filter_cons]
  split <;> rfl

/-- Rows give no edges: `neighbors` are the same for all numbers. -/
theorem neighbors_addRows (g : StrongSetGraph) (rows : List ConnectivityRow) :
    (g.addRows rows).neighbors = g.neighbors := by
  induction rows generalizing g with
  | nil => rfl
  | cons row rows ih =>
    rw [addRows_cons, ih]
    split
    · exact funext fun i => g.neighbors_addNode row.node i
    · rfl

/-- So a graph that comes of rows alone has no edges. The corpus is loaded into such a graph. -/
theorem not_hasEdge_addRows (rows : List ConnectivityRow) (i j : Nat) :
    ¬ (addRows {} rows).HasEdge i j := by
  rw [HasEdge, neighbors_addRows]
  exact Table.not_mem_empty j

/-- The ids of the rows of strong keys, in the order of the table and with repetitions. They are
distinct if and only if no row is reported as repeated. -/
def strongIds (rows : List ConnectivityRow) : List KeyId :=
  (rows.filter (·.isStrong)).map ConnectivityRow.keyId

/-- After `addRows`, the graph contains the keys that it had and those among `strongIds`. -/
theorem contains_addRows (g : StrongSetGraph) (rows : List ConnectivityRow) (k : KeyId) :
    (g.addRows rows).contains k = true ↔ g.contains k = true ∨ k ∈ strongIds rows := by
  induction rows generalizing g with
  | nil => simp [addRows, strongIds]
  | cons row rows ih =>
    rw [addRows_cons, ih, strongIds, strongIds, List.filter_cons]
    split
    · rw [contains_addNode, List.map_cons, List.mem_cons, or_assoc]
      rfl
    · rfl

/-- If the graph contains just the keys in `ids`, it has as many nodes as there are different ones
among them. The ids of its nodes are distinct, which makes them a `Finset` of that size. -/
theorem WellFormed.size_eq_card (hg : g.WellFormed) {ids : List KeyId}
    (hids : ∀ k, g.contains k = true ↔ k ∈ ids) : g.size = ids.toFinset.card := by
  rw [size, ← List.length_map StrongSetNode.keyId, ← List.toFinset_card_of_nodup hg.nodup_keyIds]
  congr 1
  ext k
  rw [List.mem_toFinset, List.mem_toFinset, hg.mem_keyIds_iff, hids]

/-- The degree totals, as the connectivity table gives them for the nodes. A repeated row does not
count, since it gave no node. The analyzer adds them up on its way, as `tableTotals`. -/
def nodeTotals (g : StrongSetGraph) : DegreeTotals where
  incoming := (g.nodes.map (·.inDegree.toNat)).sum
  outgoing := (g.nodes.map (·.outDegree.toNat)).sum

/-- A node that is appended adds its two degrees to the totals. -/
theorem nodeTotals_concat {g g' : StrongSetGraph} {node : StrongSetNode}
    (h : g'.nodes = g.nodes ++ [node]) : g'.nodeTotals
      = ⟨g.nodeTotals.incoming + node.inDegree.toNat,
          g.nodeTotals.outgoing + node.outDegree.toNat⟩ := by
  simp [nodeTotals, h]

end StrongSetGraph

namespace Analyzer

/-- `a'` has loaded the rows behind `a`. The rows that are repeated are `n` before and `n'` behind
them. -/
structure RowsLoaded (a : Analyzer) (n : Nat) (rows : List ConnectivityRow) (a' : Analyzer)
    (n' : Nat) : Prop where
  /-- All keys of the rows are reachable. -/
  reachable : ∀ k, k ∈ a'.reachable ↔ k ∈ a.reachable ∨ k ∈ rows.map ConnectivityRow.keyId
  /-- Nodes were added for the strong ones. -/
  graph : a'.graph = a.graph.addRows rows
  /-- Of the rows of strong keys each is a node or a repetition. -/
  repeated : n' + a'.graph.size = n + a.graph.size + (rows.filter (·.isStrong)).length
  /-- The totals are those of the nodes. -/
  totals : a.tableTotals = a.graph.nodeTotals → a'.tableTotals = a'.graph.nodeTotals
  /-- Nothing else has changed. -/
  frame : a' = { a with
    reachable := a'.reachable, distances := a'.distances
    graph := a'.graph, tableTotals := a'.tableTotals }

variable {a a' a'' : Analyzer} {n n' n'' : Nat}

/-- A single row is loaded, in one of the three ways that `loadRow` has. -/
theorem rowsLoaded_loadRow (a : Analyzer) (n : Nat) (row : ConnectivityRow) :
    RowsLoaded a n [row] (loadRow (a, n) row).1 (loadRow (a, n) row).2 := by
  have hreachable : ∀ k, k ∈ a.reachable.add row.keyId ↔
      k ∈ a.reachable ∨ k ∈ [row].map ConnectivityRow.keyId := fun k => by
    rw [KeySet.mem_add, or_comm]
    simp
  have hgraph : a.graph.addRows [row]
      = if row.isStrong then (a.graph.addNode row.node).1 else a.graph :=
    a.graph.addRows_cons row []
  -- The row is about a key that is not strong, one that is a node already, or a new node.
  cases hstrong : row.isStrong with
  | false =>
    simp only [loadRow, hstrong, Bool.false_eq_true, if_false] at hgraph ⊢
    exact ⟨hreachable, hgraph.symm, by simp [hstrong], id, rfl⟩
  | true =>
    rcases a.graph.addNode_cases row.node with ⟨-, hadd⟩ | ⟨-, g, hadd, hnodes⟩
    · simp only [loadRow, hstrong, hadd, if_true] at hgraph ⊢
      refine ⟨hreachable, hgraph.symm, ?_, id, rfl⟩
      simp only [List.filter_cons, hstrong, if_true, List.filter_nil, List.length_singleton]
      omega
    · simp only [loadRow, hstrong, hadd, if_true] at hgraph ⊢
      refine ⟨hreachable, hgraph.symm, ?_, fun htotals => ?_, rfl⟩
      · simp only [List.filter_cons, hstrong, if_true, List.filter_nil, List.length_singleton, size,
          hnodes, List.length_append]
        omega
      · rw [nodeTotals_concat hnodes, ← htotals]
        rfl

/-- Loading no rows changes nothing. With `RowsLoaded.trans`, whole tables are put together of
single rows. -/
theorem RowsLoaded.refl (a : Analyzer) (n : Nat) : RowsLoaded a n [] a n where
  reachable k := by simp
  graph := rfl
  repeated := rfl
  totals := id
  frame := rfl

/-- Rows behind rows have been loaded as one list of rows. The counts of repeated rows add up. -/
theorem RowsLoaded.trans {rows rows' : List ConnectivityRow} (h : RowsLoaded a n rows a' n')
    (h' : RowsLoaded a' n' rows' a'' n'') : RowsLoaded a n (rows ++ rows') a'' n'' where
  reachable k := by
    rw [h'.reachable, h.reachable, List.map_append, List.mem_append, or_assoc]
  graph := by
    rw [h'.graph, h.graph]
    simp only [addRows, List.filter_append, List.map_append, List.foldl_append]
  repeated := by
    have hfirst := h.repeated
    have hrest := h'.repeated
    rw [List.filter_append, List.length_append]
    omega
  totals := h'.totals ∘ h.totals
  frame := by rw [h'.frame, h.frame]

/-- Rows that are loaded one by one, by induction with `refl` and `trans`. -/
theorem rowsLoaded_foldl (a : Analyzer) (n : Nat) (rows : List ConnectivityRow) :
    RowsLoaded a n rows (rows.foldl loadRow (a, n)).1 (rows.foldl loadRow (a, n)).2 := by
  induction rows generalizing a n with
  | nil => exact .refl a n
  | cons row rows ih => exact (rowsLoaded_loadRow a n row).trans (ih _ _)

/-- Behind an empty graph no row is repeated exactly if the `strongIds` are distinct. Rows and nodes
are counted: what the graph is short of is what was repeated. -/
theorem RowsLoaded.repeated_eq_zero_iff {rows : List ConnectivityRow}
    (h : RowsLoaded a 0 rows a' n') (hempty : a.graph = {}) :
    n' = 0 ↔ (strongIds rows).Nodup := by
  have hgraph := h.graph
  have hrepeated := h.repeated
  rw [hempty] at hgraph hrepeated
  -- In an empty graph every strong row opens a node, except the repeated ones.
  have hsize : a'.graph.size = (strongIds rows).toFinset.card := by
    rw [hgraph]
    refine (wellFormed_empty.addRows rows).size_eq_card fun k => ?_
    rw [contains_addRows]
    exact or_iff_right (by simp [contains, indexOf])
  have hlength : (strongIds rows).length = (rows.filter (·.isStrong)).length := List.length_map _
  have hstart : size {} = 0 := rfl
  rw [← Multiset.coe_nodup, ← Multiset.toFinset_card_eq_card_iff_nodup, Multiset.coe_card]
  show n' = 0 ↔ (strongIds rows).toFinset.card = (strongIds rows).length
  omega

/-- The diagnostics about a connectivity table that disagrees with itself: strong keys that are
`repeated`, and degree totals that differ. -/
def tableDiagnostics (repeated : Nat) (totals : DegreeTotals) : List Diagnostic :=
  (if repeated = 0 then [] else [.repeatedStrongKeys repeated]) ++
    if totals.incoming = totals.outgoing then [] else [.unbalancedTable totals]

/-- A connectivity table is loaded row by row, and then the two diagnostics about it are told.
`RowsLoaded` describes the first part. -/
theorem loadConnectivity_eq (a : Analyzer) (rows : List ConnectivityRow) :
    ∃ loaded repeated, RowsLoaded a 0 rows loaded repeated ∧
      a.loadConnectivity rows = { loaded with
        diagnostics := a.diagnostics ++ tableDiagnostics repeated loaded.tableTotals } := by
  have hloaded := rowsLoaded_foldl a 0 rows
  refine ⟨_, _, hloaded, ?_⟩
  have hdiagnostics := congrArg Analyzer.diagnostics hloaded.frame
  rw [tableDiagnostics, ← List.append_assoc, ← hdiagnostics]
  rfl

end Analyzer

/-! ### The corpus -/

/-- The keys of a corpus, those of headers and those of certifications. Each of them should be in
the connectivity table. -/
def Corpus.keys (blocks : List EdgeBlock) : List KeyId :=
  blocks.flatMap fun b => b.signee :: b.entries.map Signature.issuer

/-- The keys of two corpora, one behind the other, are those of the first and then those of the
second. -/
theorem Corpus.keys_append (blocks blocks' : List EdgeBlock) :
    keys (blocks ++ blocks') = keys blocks ++ keys blocks' :=
  List.flatMap_append

namespace Analyzer

/-- `a'` has loaded certifications behind `a`, each given by its issuer and the certified key. -/
structure EdgesLoaded (a : Analyzer) (edges : List (KeyId × KeyId)) (a' : Analyzer) : Prop where
  /-- Their edges have been added. -/
  graph : a'.graph = a.graph.addEdges edges
  /-- Each of them is counted. -/
  valid : a'.certifications.totals.valid = a.certifications.totals.valid + edges.length
  /-- Those between two nodes are counted as strong. -/
  strong : a'.certifications.totals.strong
    = a.certifications.totals.strong + edges.countP fun e => (a.graph.edge? e).isSome
  /-- Nothing else has changed. -/
  frame : a' = { a with graph := a'.graph, certifications := a'.certifications }

variable {a a' a'' : Analyzer} {edges edges' : List (KeyId × KeyId)}

/-- Loading no certifications changes nothing. With `EdgesLoaded.trans`, a corpus is put together of
single certifications. -/
theorem EdgesLoaded.refl (a : Analyzer) : EdgesLoaded a [] a :=
  ⟨rfl, rfl, rfl, rfl⟩

/-- Certifications behind certifications have been loaded. Those that are strong behind the first
ones were so before, as edges add no nodes. This is `edge?_addEdges`, and without it the two counts
would not add up. -/
theorem EdgesLoaded.trans (h : EdgesLoaded a edges a') (h' : EdgesLoaded a' edges' a'') :
    EdgesLoaded a (edges ++ edges') a'' where
  graph := by rw [h'.graph, h.graph, addEdges_append]
  valid := by rw [h'.valid, h.valid, List.length_append, Nat.add_assoc]
  strong := by rw [h'.strong, h.strong, h.graph, edge?_addEdges, List.countP_append, Nat.add_assoc]
  frame := by rw [h'.frame, h.frame]

/-- The reachable set is not touched by certifications, as the field `frame` lists all that is. -/
theorem EdgesLoaded.reachable (h : EdgesLoaded a edges a') : a'.reachable = a.reachable := by
  rw [h.frame]

/-- A single certification is loaded: `addEdge` is called for it, and it is counted as reachable or
strong. -/
theorem edgesLoaded_loadEntry (signee : KeyId) (a : Analyzer) (missing : KeySet KeyId)
    (s : Signature) :
    EdgesLoaded a [(s.issuer, signee)] (loadEntry signee (a, missing) s).1 where
  graph := rfl
  valid := rfl
  strong := by
    show incrementIf (a.graph.addEdge s.issuer signee).2 _ = _
    rw [addEdge_snd, List.countP_singleton, incrementIf]
    split <;> rfl
  frame := rfl

/-- `noteKey` adds a key to the missing ones exactly if it is not reachable. -/
theorem mem_noteKey {missing : KeySet KeyId} {j k : KeyId} :
    k ∈ a.noteKey missing j ↔ k ∈ missing ∨ k ∉ a.reachable ∧ k = j := by
  rw [noteKey]
  split
  · next h =>
    refine (or_iff_left ?_).symm
    rintro ⟨hk, rfl⟩
    exact hk h
  · next h =>
    rw [KeySet.mem_add, or_comm]
    refine or_congr_right ⟨fun heq => ⟨heq ▸ h, heq⟩, And.right⟩

/-- The certifications of a block, with the keys that are not in the table gathered beside them. The
induction is on `entries`, for any analyzer and any `missing`. -/
theorem edgesLoaded_foldl (signee : KeyId) (a : Analyzer) (missing : KeySet KeyId)
    (entries : List Signature) :
    EdgesLoaded a (entries.map fun s => (s.issuer, signee))
        (entries.foldl (loadEntry signee) (a, missing)).1 ∧
      ∀ k, k ∈ (entries.foldl (loadEntry signee) (a, missing)).2 ↔
        k ∈ missing ∨ k ∉ a.reachable ∧ k ∈ entries.map Signature.issuer := by
  induction entries generalizing a missing with
  | nil => exact ⟨.refl a, by simp⟩
  | cons s entries ih =>
    have hfirst := edgesLoaded_loadEntry signee a missing s
    obtain ⟨hrest, hmissing⟩ := ih (loadEntry signee (a, missing) s).1 (a.noteKey missing s.issuer)
    refine ⟨hfirst.trans hrest, fun k => (hmissing k).trans ?_⟩
    rw [mem_noteKey, hfirst.reachable, or_assoc, ← and_or_left, List.map_cons, List.mem_cons]

/-- A block with its header, whose key may be missing as well. `Corpus.keys` has it in front of the
issuers. -/
theorem edgesLoaded_loadBlock (a : Analyzer) (missing : KeySet KeyId) (b : EdgeBlock) :
    EdgesLoaded a (Corpus.edges [b]) (a.loadBlock missing b).1 ∧
      ∀ k, k ∈ (a.loadBlock missing b).2 ↔
        k ∈ missing ∨ k ∉ a.reachable ∧ k ∈ Corpus.keys [b] := by
  obtain ⟨hloaded, hmissing⟩ :=
    edgesLoaded_foldl b.signee a (a.noteKey missing b.signee) b.entries
  have hedges : Corpus.edges [b] = b.entries.map fun s => (s.issuer, b.signee) := by
    simp [Corpus.edges]
  refine ⟨hedges ▸ hloaded, fun k => (hmissing k).trans ?_⟩
  rw [mem_noteKey, or_assoc, ← and_or_left]
  simp [Corpus.keys]

/-- The blocks of a corpus that is read without error. The last component of the result is `none`,
so all of them are loaded. -/
theorem edgesLoaded_loadBlocks (a : Analyzer) (missing : KeySet KeyId) (blocks : List EdgeBlock) :
    ∃ a' missing', a.loadBlocks missing (blocks.map .ok) = (a', missing', none) ∧
      EdgesLoaded a (Corpus.edges blocks) a' ∧
      ∀ k, k ∈ missing' ↔ k ∈ missing ∨ k ∉ a.reachable ∧ k ∈ Corpus.keys blocks := by
  induction blocks generalizing a missing with
  | nil => exact ⟨a, missing, rfl, .refl a, by simp [Corpus.keys]⟩
  | cons b blocks ih =>
    obtain ⟨hfirst, hnoted⟩ := edgesLoaded_loadBlock a missing b
    obtain ⟨a', missing', hrun, hrest, hmissing⟩ :=
      ih (a.loadBlock missing b).1 (a.loadBlock missing b).2
    refine ⟨a', missing', hrun, ?_, fun k => (hmissing k).trans ?_⟩
    · rw [← List.singleton_append, Corpus.edges_append]
      exact hfirst.trans hrest
    · -- What is noted of the first block depends on `reachable`, which blocks do not change.
      rw [hnoted, hfirst.reachable, or_assoc, ← and_or_left, ← List.mem_append,
        ← Corpus.keys_append, List.singleton_append]

/-- Blocks up to the first error, if there is one. Which edges they have is not said. It is enough
for what does not depend on edges at all. -/
theorem exists_edgesLoaded_loadBlocks (a : Analyzer) (missing : KeySet KeyId)
    (items : List (Except ResolutionError EdgeBlock)) :
    ∃ edges, EdgesLoaded a edges (a.loadBlocks missing items).1 := by
  induction items generalizing a missing with
  | nil => exact ⟨[], .refl a⟩
  | cons item items ih =>
    cases item with
    | error e => exact ⟨[], .refl a⟩
    | ok b =>
      obtain ⟨edges, hrest⟩ := ih (a.loadBlock missing b).1 (a.loadBlock missing b).2
      exact ⟨_, (edgesLoaded_loadBlock a missing b).1.trans hrest⟩

/-- A corpus that is read without error. Behind its blocks, the digest of its bytes is kept, and the
number of missing keys is told by `keysOutsideTable`, if there are any. -/
theorem loadCorpus_eq (a : Analyzer) {corpus : Source} {blocks : List EdgeBlock}
    (hblocks : Corpus.blocks Corpus.readingStage corpus = blocks.map .ok) :
    ∃ (loaded : Analyzer) (missing : KeySet KeyId), EdgesLoaded a (Corpus.edges blocks) loaded ∧
      (∀ k, k ∈ missing ↔ k ∉ a.reachable ∧ k ∈ Corpus.keys blocks) ∧
      a.loadCorpus corpus = ({ loaded with
        corpusDigest := Blake3.hexDigest corpus.bytes
        diagnostics := a.diagnostics ++
          if missing.isEmpty then [] else [.keysOutsideTable missing.size] }, none) := by
  obtain ⟨loaded, missing, hrun, hloaded, hmissing⟩ := edgesLoaded_loadBlocks a ∅ blocks
  refine ⟨loaded, missing, hloaded, fun k => ?_, ?_⟩
  · rw [hmissing, or_iff_right (Table.not_mem_empty k)]
  · have hdiagnostics : loaded.diagnostics = a.diagnostics := by rw [hloaded.frame]
    rw [loadCorpus, hblocks, hrun, ← hdiagnostics]
    rfl

/-- Any corpus. The digest and the diagnostics are told only behind its last block. It is stated so
that errors need no case of their own in `HasRows.loadCorpus`. -/
theorem exists_edgesLoaded_loadCorpus (a : Analyzer) (corpus : Source) :
    ∃ edges loaded digest diagnostics, EdgesLoaded a edges loaded ∧ (a.loadCorpus corpus).1
      = { loaded with corpusDigest := digest, diagnostics := diagnostics } := by
  obtain ⟨edges, hloaded⟩ :=
    a.exists_edgesLoaded_loadBlocks ∅ (Corpus.blocks Corpus.readingStage corpus)
  rw [loadCorpus]
  -- After an error the digest and the diagnostics are those that were there before.
  split
  · next hrun =>
    rw [hrun] at hloaded
    exact ⟨edges, _, _, _, hloaded, rfl⟩
  · next hrun =>
    rw [hrun] at hloaded
    exact ⟨edges, _, _, _, hloaded, rfl⟩

/-- If the load of `items` returns no error, none of them is one. -/
theorem blocks_of_loadBlocks {missing missing' : KeySet KeyId}
    {items : List (Except ResolutionError EdgeBlock)}
    (h : a.loadBlocks missing items = (a', missing', none)) :
    ∃ blocks : List EdgeBlock, items = blocks.map .ok := by
  induction items generalizing a missing with
  | nil => exact ⟨[], rfl⟩
  | cons item items ih =>
    cases item with
    | error e => cases h
    | ok b =>
      obtain ⟨blocks, rfl⟩ := ih h
      exact ⟨b :: blocks, rfl⟩

/-- If the load of a corpus returns no error, its reader has given blocks only. The load passes on
the first error of its reader. -/
theorem blocks_of_loadCorpus {corpus : Source} (h : a.loadCorpus corpus = (a', none)) :
    ∃ blocks : List EdgeBlock, Corpus.blocks Corpus.readingStage corpus = blocks.map .ok := by
  rw [loadCorpus] at h
  split at h
  · cases h
  · next hrun => exact blocks_of_loadBlocks hrun

end Analyzer

end WebOfTrust
