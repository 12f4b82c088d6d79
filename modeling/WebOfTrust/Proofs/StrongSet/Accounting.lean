import WebOfTrust.Proofs.BlockCounts
import WebOfTrust.Proofs.FirstLines
import WebOfTrust.Proofs.StrongSet.Loading

/-!
# `WebOfTrust.Proofs.StrongSet.Accounting`: an analysis accounts for what the passes leave

An analysis goes through the final corpus and counts certifications, while the graph takes edges and
is silent about those that it has. The two agree because the second pass has sorted that out: a pair
of keys comes once in the final corpus, and no key certifies itself. So the certifications between
strong keys are as many as there are edges, whatever the connectivity table says which keys are
strong. All certifications are as many as the second pass counted, and all keys as many as the dump
has ids.

- `Accounts`: what an analysis has counted;
- `analysis_accounts`: any connectivity table, with the final artifacts of any dump.
-/

set_option autoImplicit false

namespace WebOfTrust

open Dump StrongSetGraph Text

/-- What the analysis `a` has counted behind the final artifacts of a dump, if the final corpus has
the blocks `blocks`. The numbers of the report are compared with those of the second pass, which has
not seen the graph. -/
structure Accounts (dump : Source) (p : Resolution) (blocks : List EdgeBlock) (a : Analyzer) :
    Prop where
  /-- The corpus that was loaded has these blocks. -/
  corpus : Corpus.Holds p.final.corpus.text blocks
  /-- Each certification that the second pass has counted is counted by the analysis. -/
  valid : a.finish.certifications.totals.valid = p.counts.certifications
  /-- Either total of the degrees is the number of strong certifications. -/
  strong : a.graph.edgeDegreeTotals
    = ⟨a.finish.certifications.totals.strong, a.finish.certifications.totals.strong⟩
  /-- Each edge is that of one certification. -/
  edges : ∀ i j, a.graph.HasEdge i j ↔
    ∃! e, e ∈ Corpus.edges blocks ∧ a.graph.edge? e = some (i, j)
  /-- No key of the strong set certifies itself. -/
  loopless : a.graph.Loopless
  /-- A key is counted once, however often it is in the dump. -/
  keys : a.finish.keys.totals.keys = (Dump.keyIds dump).toFinset.card

namespace Analyzer

variable {a a' : Analyzer} {edges : List (KeyId × KeyId)}

/-- A new analysis has neither edges nor certifications behind the connectivity table. What the
corpus adds is all that there is, therefore. It is stated for `start`, since the accounts are those
of a new analysis. -/
theorem loadConnectivity_start (settings : AnalyticsSettings) (year : Nat)
    (rows : List ConnectivityRow) :
    ((start settings year).loadConnectivity rows).graph = addRows {} rows ∧
      ((start settings year).loadConnectivity rows).certifications = {} := by
  obtain ⟨loaded, repeated, hloaded, heq⟩ := (start settings year).loadConnectivity_eq rows
  rw [heq]
  refine ⟨hloaded.graph, ?_⟩
  show loaded.certifications = _
  rw [hloaded.frame]
  rfl

/-- Certifications of which none comes twice are counted as the edges are. With a repetition the
strong certifications would be more than the edges. `hnodup` is the condition, and a canonical
corpus satisfies it. -/
theorem EdgesLoaded.edgeDegreeTotals (h : EdgesLoaded a edges a') (hg : a.graph.WellFormed)
    (hnone : ∀ i j, ¬ a.graph.HasEdge i j) (hcounted : a.certifications.totals.strong = 0)
    (hnodup : edges.Nodup) : a'.graph.edgeDegreeTotals
      = ⟨a'.certifications.totals.strong, a'.certifications.totals.strong⟩ := by
  rw [h.strong, hcounted, Nat.zero_add, h.graph, (hg.addEdges edges).edgeDegreeTotals_eq,
    card_edgeSet_addEdges hg hnone hnodup]

/-- Each edge is that of one of them, as two pairs of keys do not share an edge.
`WellFormed.edge?_inj` is the reason. -/
theorem EdgesLoaded.hasEdge_iff (h : EdgesLoaded a edges a') (hg : a.graph.WellFormed)
    (hnone : ∀ i j, ¬ a.graph.HasEdge i j) {i j : Nat} :
    a'.graph.HasEdge i j ↔ ∃! e, e ∈ edges ∧ a'.graph.edge? e = some (i, j) := by
  rw [h.graph, edge?_addEdges, hasEdge_addEdges hg, or_iff_left (hnone i j)]
  constructor
  · rintro ⟨e, he, hedge⟩
    exact ⟨e, ⟨he, hedge⟩, fun e' h' => hg.edge?_inj h'.2 hedge⟩
  · rintro ⟨e, he, -⟩
    exact ⟨e, he⟩

end Analyzer

/-- Whatever the connectivity table is, an analysis takes the final artifacts of a dump and accounts
for all of them. Both loads succeed, which `Corpus.Canonical` and the codec of the table are needed
for. -/
theorem analysis_accounts {settings : ResolutionSettings} {dump : Source} {p : Resolution}
    (hpasses : bothPasses settings dump = .ok p) (analytics : AnalyticsSettings) (year : Nat)
    (rows : List ConnectivityRow) :
    ∃ blocks loaded a,
      ((Analyzer.start analytics year).loadConnectivity rows).loadCorpus
        (.ofString p.final.corpus.text) = (loaded, none) ∧
      loaded.loadStatus (.ofString p.final.status.text) = .ok a ∧ Accounts dump p blocks a := by
  obtain ⟨items, keys, blocks, hitems, h⟩ := bothPasses_eq_ok hpasses
  have hcanonical := h.canonical
  obtain ⟨hgraph, hcertifications⟩ := Analyzer.loadConnectivity_start analytics year rows
  obtain ⟨loaded, missing, hloaded, -, hcorpus⟩ :=
    ((Analyzer.start analytics year).loadConnectivity rows).loadCorpus_eq
      (h.blocks_final Corpus.readingStage)
  obtain ⟨statistics, hstatus, htotals⟩ :=
    Analyzer.loadStatus_totals (((Analyzer.start analytics year).loadConnectivity rows).loadCorpus
      (.ofString p.final.corpus.text)).1 h.holds_table.read
  -- The nodes are those of the table, and there are no edges before the corpus.
  have hg : ((Analyzer.start analytics year).loadConnectivity rows).graph.WellFormed :=
    hgraph ▸ wellFormed_empty.addRows rows
  have hnone : ∀ i j,
      ¬ ((Analyzer.start analytics year).loadConnectivity rows).graph.HasEdge i j := by
    rw [hgraph]
    exact not_hasEdge_addRows rows
  rw [hcorpus] at hstatus
  refine ⟨blocks, _, _, hcorpus, hstatus, ?_⟩
  exact {
    corpus := h.holds_final
    valid := by
      show loaded.certifications.totals.valid = _
      rw [hloaded.valid, hcertifications, (h.blockCounts hpasses).2.1]
      exact Nat.zero_add _
    strong := hloaded.edgeDegreeTotals hg hnone (by rw [hcertifications]) hcanonical.edges
    edges := fun i j => hloaded.hasEdge_iff hg hnone
    loopless := by
      show loaded.graph.Loopless
      rw [hloaded.graph]
      exact loopless_addEdges hg (fun i => hnone i i) (Corpus.ne_of_mem_edges hcanonical.foreign)
    keys := by
      show statistics.totals.keys = _
      rw [htotals]
      show (StatusTable.firstLines _).length = _
      rw [StatusTable.length_firstLines, h.keyIds_final hitems] }

/-- A connectivity table in which both keys of `repeatedKeyDump` are strong, the first one twice. -/
def mutualRows : List ConnectivityRow :=
  let row (k : KeyId) : ConnectivityRow := ⟨k, ⟨0⟩, 1, 1, 1, 1, 1, 1, 1, true⟩
  [row (.ofText "AA"), row (.ofText "BB"), row (.ofText "AA")]

/-- The three key lines of `repeatedKeyDump` are two keys, and the two certifications between them
are two edges. The table that the passes write is loaded behind the corpus. -/
theorem analysis_accounts_repeatedKeyDump :
    ∃ p blocks loaded a, bothPasses {} repeatedKeyDump = .ok p ∧
      p.counts.certifications = 2 ∧ (Dump.keyIds repeatedKeyDump).toFinset.card = 2 ∧
      ((Analyzer.start {} 2001).loadConnectivity mutualRows).loadCorpus
        (.ofString p.final.corpus.text) = (loaded, none) ∧
      loaded.loadStatus (.ofString p.final.status.text) = .ok a ∧
      loaded.graph.edgeDegreeTotals = ⟨2, 2⟩ ∧ Accounts repeatedKeyDump p blocks a := by
  have hfacts : ((bothPasses {} repeatedKeyDump).toOption.map fun p =>
      (p.counts.certifications, p.final.corpus.text))
        = some (2, unlines ["pAA", "sBB;2001-01-02;;;3;17;2;4", "pBB",
          "sAA;2001-01-02;;;3;17;2;4"]) := by
    rw [repeatedKeyDump, Source.ofString_unlines]
    decide +kernel
  obtain ⟨p, hp, hfacts⟩ := exists_resolution _ hfacts
  obtain ⟨hcertifications, htext⟩ := Prod.mk.inj hfacts
  have hids : (Dump.keyIds repeatedKeyDump).toFinset.card = 2 := by
    rw [repeatedKeyDump, Source.ofString_unlines]
    decide +kernel
  -- The degrees are computed, so that the accounts below are not those of an empty graph.
  have hedges : (((Analyzer.start {} 2001).loadConnectivity mutualRows).loadCorpus
      (.ofString p.final.corpus.text)).1.graph.edgeDegreeTotals = ⟨2, 2⟩ := by
    rw [htext, Source.ofString_unlines]
    decide +kernel
  obtain ⟨blocks, loaded, a, hcorpus, hstatus, haccounts⟩ :=
    analysis_accounts hp {} 2001 mutualRows
  rw [hcorpus] at hedges
  exact ⟨p, blocks, loaded, a, hp, hcertifications, hids, hcorpus, hstatus, hedges, haccounts⟩

end WebOfTrust
