import WebOfTrust.AnalyticsSettings
import WebOfTrust.Digest.Blake3
import WebOfTrust.StrongSet.Breakdown
import WebOfTrust.StrongSet.Centrality
import WebOfTrust.StrongSet.Clustering
import WebOfTrust.StrongSet.Distribution

/-!
# `WebOfTrust.StrongSet.Analyzer`: one analysis

An analysis loads the connectivity table, which gives the reachable set and the nodes of the strong
set, then the centrality table, the edge corpus and the key-status table. Its report holds all that
it computes from them. Files that disagree are reported, not refused.
-/

set_option autoImplicit false

namespace WebOfTrust

/-- The result of an analysis. `Report.toJson` writes it. -/
structure Report where
  /-- The BLAKE3 digest of the corpus; empty if none was loaded. -/
  corpusDigest : String
  reachableSetSize : Nat
  strongSetSize : Nat
  reachableDistance : Option Description
  strongDistance : Option Description
  strongEccentricity : Option Description
  degrees : List DegreeRow
  eccentricities : List EccentricityRow
  centralization : Centralization
  globalClustering : Float
  strongSet : List StrongSetNode
  keys : KeyStatistics
  certifications : CertificationStatistics
  diagnostics : List Diagnostic

/-- An analysis at work. Files are loaded into it one after the other, and `Analyzer.finish` makes
the report. -/
structure Analyzer where
  /-- The number of workers that share out the clustering coefficients. -/
  workers : Nat
  /-- The year behind which dates lie in the future. -/
  currentYear : Nat
  /-- The keys of the connectivity table. -/
  reachable : KeySet KeyId := ∅
  /-- The mean distances of its rows. -/
  distances : List Binary64 := []
  /-- The strong set and the certifications within it. -/
  graph : StrongSetGraph := {}
  /-- The degree totals of the strong set, by the connectivity table. -/
  tableTotals : DegreeTotals := {}
  /-- The certifications that have been counted. -/
  certifications : CertificationTally := {}
  /-- The key statistics, once a table has been loaded. -/
  keys : Option KeyStatistics := none
  corpusDigest : String := ""
  diagnostics : List Diagnostic := []

namespace Analyzer

/-- An analysis that has loaded nothing. The year is the one of the settings, or the present one.
`settings.currentYear` is not positive if it is left open. -/
def start (settings : AnalyticsSettings) (presentYear : Nat) : Analyzer :=
  { workers := settings.workers.toNat
    currentYear :=
      if 0 < settings.currentYear.toInt then settings.currentYear.toInt.toNat else presentYear }

/-- An analysis with further diagnostics behind the others. All diagnostics of a load go through
it. -/
def tell (a : Analyzer) (diagnostics : List Diagnostic) : Analyzer :=
  { a with diagnostics := a.diagnostics ++ diagnostics }

/-! ### The connectivity table -/

/-- Loads a row. The second component counts the rows of strong keys that are nodes already. A row
of a key that is not strong only adds to `reachable` and `distances`. -/
def loadRow (state : Analyzer × Nat) (row : ConnectivityRow) : Analyzer × Nat :=
  let (a, repeated) := state
  let a := { a with
    reachable := a.reachable.add row.keyId
    distances := a.distances ++ [row.meanDistance] }
  if row.isStrong then
    match a.graph.addNode row.node with
    -- The row of a key that is a node already adds nothing to the totals.
    | (_, none) => (a, repeated + 1)
    | (graph, some _) =>
      ({ a with
          graph
          tableTotals :=
            { incoming := a.tableTotals.incoming + row.strongInDegree.toNat
              outgoing := a.tableTotals.outgoing + row.strongOutDegree.toNat } },
        repeated)
  else (a, repeated)

/-- Loads a connectivity table: its rows, and then what there is to tell of the table.
`loadConnectivity_eq` writes the last part as `tableDiagnostics`. -/
def loadConnectivity (a : Analyzer) (rows : List ConnectivityRow) : Analyzer :=
  let (a, repeated) := rows.foldl loadRow (a, 0)
  (a.tell (if repeated = 0 then [] else [.repeatedStrongKeys repeated])).tell
    (if a.tableTotals.incoming = a.tableTotals.outgoing then []
      else [.unbalancedTable a.tableTotals])

/-! ### The centrality table -/

/-- Loads a centrality table, whose rows are entered into nodes that are there. Rows of other keys
are told by `strangerCentrality`. -/
def loadCentrality (a : Analyzer) (rows : List CentralityRow) : Analyzer :=
  let (graph, diagnostics) := a.graph.applyCentrality rows
  { a with graph }.tell diagnostics

/-! ### The corpus -/

/-- A member of `missing` is a key of the corpus that the connectivity table does not have. -/
def noteKey (a : Analyzer) (missing : KeySet KeyId) (k : KeyId) : KeySet KeyId :=
  if a.reachable.contains k then missing else missing.add k

/-- Loads a certification of `signee`. -/
def loadEntry (signee : KeyId) (state : Analyzer × KeySet KeyId) (s : Signature) :
    Analyzer × KeySet KeyId :=
  let (a, missing) := state
  let (graph, strong) := a.graph.addEdge s.issuer signee
  let reachable := a.reachable.contains signee && a.reachable.contains s.issuer
  ({ a with graph, certifications := a.certifications.record s reachable strong },
    a.noteKey missing s.issuer)

/-- Loads a block. `noteKey` is asked for the signee before its entries are loaded. -/
def loadBlock (a : Analyzer) (missing : KeySet KeyId) (b : EdgeBlock) :
    Analyzer × KeySet KeyId :=
  b.entries.foldl (loadEntry b.signee) (a, a.noteKey missing b.signee)

/-- Loads blocks up to the first error. What was loaded before it stays. The third component is the
error. -/
def loadBlocks (a : Analyzer) (missing : KeySet KeyId) :
    List (Except ResolutionError EdgeBlock) →
      Analyzer × KeySet KeyId × Option ResolutionError
  | [] => (a, missing, none)
  | .error e :: _ => (a, missing, some e)
  | .ok b :: rest =>
    let (a, missing) := a.loadBlock missing b
    a.loadBlocks missing rest

/-- Loads a corpus: its certifications, its edges within the strong set, and its digest. The digest
is set only behind the last block. -/
def loadCorpus (a : Analyzer) (corpus : Source) : Analyzer × Option ResolutionError :=
  match a.loadBlocks ∅ (Corpus.blocks Corpus.readingStage corpus) with
  | (a, _, some e) => (a, some e)
  | (a, missing, none) =>
    ({ a with corpusDigest := Blake3.hexDigest corpus.bytes }.tell
      (if missing.isEmpty then [] else [.keysOutsideTable missing.size]), none)

/-! ### The key-status table -/

/-- Counts status lines up to the first error. `KeyTally.record` counts one of them. -/
def countLines (a : Analyzer) (t : KeyTally) :
    List (Except ResolutionError StatusLine) → Except ResolutionError KeyTally
  | [] => .ok t
  | .error e :: _ => .error e
  | .ok l :: rest =>
    a.countLines (t.record l (a.reachable.contains l.keyId) (a.graph.contains l.keyId)).1 rest

/-- The breakdowns of a tally, by the sizes of the sets. The sizes are those at the time of the
load. -/
def keyStatistics (a : Analyzer) (t : KeyTally) : KeyStatistics :=
  t.finish a.reachable.size a.graph.size

/-- Loads a key-status table. One that is refused changes nothing. `none` in `keys` means that no
table has been loaded. -/
def loadStatus (a : Analyzer) (table : Source) : Except ResolutionError Analyzer := do
  let t ← a.countLines { currentYear := a.currentYear } (StatusTable.lines table)
  return { a with keys := some (a.keyStatistics t) }

/-! ### The report -/

/-- The coefficients of the nodes, entered into them. The second list is as long as the first one,
by `length_clusteringCoefficients`. -/
def clusteredNodes (nodes : List StrongSetNode) (coefficients : List Coefficient) :
    List StrongSetNode :=
  List.zipWith (fun node c => { node with clustering := .ofFloat c.value }) nodes coefficients

/-- The report of what has been loaded. Coefficients, distributions and descriptions are computed
only here. Diagnostics about the totals and about degenerate coefficients are told here, too. -/
def finish (a : Analyzer) : Report :=
  let corpusTotals := a.graph.edgeDegreeTotals
  let coefficients := a.graph.clusteringCoefficientsInChunks a.workers
  let degenerate := coefficients.countP (· = .degenerate)
  let nodes := clusteredNodes a.graph.nodes coefficients
  { corpusDigest := a.corpusDigest
    reachableSetSize := a.reachable.size
    strongSetSize := a.graph.size
    reachableDistance := describe a.distances
    strongDistance := describe (nodes.map (·.meanDistance))
    strongEccentricity :=
      describe (nodes.map fun n => .ofFloat (floatOfCount n.eccentricity.toNat))
    degrees := degreeDistribution nodes
    eccentricities := eccentricityDistribution nodes
    centralization := a.graph.centralization
    globalClustering := globalCoefficient (coefficients.map Coefficient.value)
    strongSet := nodes
    keys := a.keys.getD (a.keyStatistics { currentYear := a.currentYear })
    certifications := a.certifications.finish
    diagnostics :=
      a.diagnostics ++
        (if corpusTotals = a.tableTotals then [] else [.totalsDiffer a.tableTotals corpusTotals]) ++
        (if degenerate = 0 then [] else [.degenerateCoefficients degenerate]) }

end Analyzer

end WebOfTrust
