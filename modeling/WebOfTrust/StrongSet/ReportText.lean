import WebOfTrust.Json.Text
import WebOfTrust.StrongSet.Analyzer

/-!
# `WebOfTrust.StrongSet.ReportText`: reports as JSON

A report is written as a JSON object with the stamp of the run in front.
-/

set_option autoImplicit false

namespace WebOfTrust

/-- What tells one run from another. It is the only part of a report that is not computed from the
files. -/
structure RunStamp where
  runId : String
  generatedAt : String
  deriving Inhabited

/-- A description, by its measures. Infinite values and NaNs are written as `null`. -/
def Description.toJson (d : Description) : Json :=
  .object [
    ("count", .natural d.count),
    ("min", .number d.min.toFloat),
    ("max", .number d.max.toFloat),
    ("mean", .number d.mean),
    ("variance", .number d.variance),
    ("skewness", .number d.skewness),
    ("kurtosis", .number d.kurtosis),
    ("first_quartile", .number d.firstQuartile),
    ("median", .number d.median),
    ("third_quartile", .number d.thirdQuartile)]

/-- A row of the degree distribution, as six counts beside its degree. The names of the fields tell
the three kinds apart. -/
def DegreeRow.toJson (r : DegreeRow) : Json :=
  .object [
    ("degree", .natural r.degree),
    ("in_count", .natural r.incoming.exact),
    ("in_at_least", .natural r.incoming.atLeast),
    ("out_count", .natural r.outgoing.exact),
    ("out_at_least", .natural r.outgoing.atLeast),
    ("cross_count", .natural r.cross.exact),
    ("cross_at_least", .natural r.cross.atLeast)]

/-- A row of the eccentricity distribution. It is a value and its count. -/
def EccentricityRow.toJson (r : EccentricityRow) : Json :=
  .object [("eccentricity", .natural r.eccentricity), ("count", .natural r.count)]

/-- The centralization, with the greatest relative centrality. Both are floats. -/
def Centralization.toJson (c : Centralization) : Json :=
  .object [("max_relative", .number c.greatest), ("index", .number c.index)]

/-- A key of the strong set with all that is known of it. The order of its fields is that of the
text. -/
def StrongSetNode.toJson (n : StrongSetNode) : Json :=
  .object [
    ("key_id", .string n.keyId.text),
    ("mean_distance", .number n.meanDistance.toFloat),
    ("in_degree", .natural n.inDegree.toNat),
    ("out_degree", .natural n.outDegree.toNat),
    ("cross_degree", .natural n.crossDegree.toNat),
    ("eccentricity", .natural n.eccentricity.toNat),
    ("centrality_abs", .number n.absoluteCentrality.toFloat),
    ("centrality_rel", .number n.relativeCentrality.toFloat),
    ("clustering", .number n.clustering.toFloat)]

/-- The counts of all keys. Fields are written in the order of `KeyTotals`. -/
def KeyTotals.toJson (t : KeyTotals) : Json :=
  .object [
    ("keys", .natural t.keys),
    ("expired", .natural t.expired),
    ("revoked", .natural t.revoked),
    ("revoked_by_owner", .natural t.revokedByOwner),
    ("revoked_by_designated_revoker", .natural t.revokedByDesignatedRevoker),
    ("invalid", .natural t.invalid),
    ("valid", .natural t.valid),
    ("certified", .natural t.certified),
    ("reachable", .natural t.reachable),
    ("strong", .natural t.strong)]

/-- The counts of a bucket of keys. `breakdownJson` is given it for the rows of keys. -/
def KeyCounts.toJson (c : KeyCounts) : Json :=
  .object [
    ("valid", .natural c.valid),
    ("certified", .natural c.certified),
    ("reachable", .natural c.reachable),
    ("strong", .natural c.strong)]

/-- The counts of certifications, be it those of a bucket or of all. `breakdownJson` is given it for
the rows of certifications. -/
def CertificationCounts.toJson (c : CertificationCounts) : Json :=
  .object [
    ("valid", .natural c.valid),
    ("reachable", .natural c.reachable),
    ("strong", .natural c.strong)]

/-- The rows of a breakdown. `counts` writes what is in a bucket. -/
def breakdownJson {γ : Type} (counts : γ → Json) (rows : List (BreakdownRow γ)) : Json :=
  .array (rows.map fun r => .object [
    ("bucket", .natural r.bucket), ("label", .string r.label), ("counts", counts r.counts)])

/-- The statistics of keys: their totals and the four breakdowns. Each breakdown is written by
`breakdownJson`. -/
def KeyStatistics.toJson (s : KeyStatistics) : Json :=
  .object [
    ("totals", s.totals.toJson),
    ("by_version", breakdownJson KeyCounts.toJson s.byVersion),
    ("by_pk_algorithm", breakdownJson KeyCounts.toJson s.byAlgorithm),
    ("by_key_length", breakdownJson KeyCounts.toJson s.byLength),
    ("by_creation_year", breakdownJson KeyCounts.toJson s.byYear)]

/-- The statistics of certifications: their totals and the three breakdowns. Each breakdown is
written by `breakdownJson`. -/
def CertificationStatistics.toJson (s : CertificationStatistics) : Json :=
  .object [
    ("totals", s.totals.toJson),
    ("by_hash_algorithm", breakdownJson CertificationCounts.toJson s.byHash),
    ("by_version", breakdownJson CertificationCounts.toJson s.byVersion),
    ("by_level", breakdownJson CertificationCounts.toJson s.byLevel)]

/-- The report as a value. Its fields keep this order in the text. `Json.text` writes it. -/
def Report.toJson (stamp : RunStamp) (r : Report) : Json :=
  .object [
    ("run_id", .string stamp.runId),
    ("generated_at", .string stamp.generatedAt),
    ("edge_corpus_digest", .string r.corpusDigest),
    ("reachable_set_size", .natural r.reachableSetSize),
    ("strong_set_size", .natural r.strongSetSize),
    ("mean_distance_reachable", .ofOption Description.toJson r.reachableDistance),
    ("mean_distance_strong", .ofOption Description.toJson r.strongDistance),
    ("eccentricity_strong", .ofOption Description.toJson r.strongEccentricity),
    ("degree_distribution", .array (r.degrees.map DegreeRow.toJson)),
    ("eccentricity_distribution", .array (r.eccentricities.map EccentricityRow.toJson)),
    ("centralization", r.centralization.toJson),
    ("global_clustering", .number r.globalClustering),
    ("strong_set", .array (r.strongSet.map StrongSetNode.toJson)),
    ("key_statistics", r.keys.toJson),
    ("certification_statistics", r.certifications.toJson),
    ("diagnostics", .array (r.diagnostics.map fun d => .string d.message))]

/-- Writes a report. A failure of the sink is an `AnalysisError.report`. -/
def Report.write (stamp : RunStamp) (r : Report) (out : Sink) : Except AnalysisError Sink :=
  (out.write (r.toJson stamp).text).mapError .report

end WebOfTrust
