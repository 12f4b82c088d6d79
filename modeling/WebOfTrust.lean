import WebOfTrust.Algorithm
import WebOfTrust.AnalyticsSettings
import WebOfTrust.Artifacts
import WebOfTrust.CommandLine.Arguments
import WebOfTrust.CommandLine.Execution
import WebOfTrust.CommandLine.Failure
import WebOfTrust.CommandLine.Stages
import WebOfTrust.CommandLine.Stamp
import WebOfTrust.Configuration
import WebOfTrust.Corpus
import WebOfTrust.Digest.Blake3
import WebOfTrust.Dump.Escape
import WebOfTrust.Dump.Record
import WebOfTrust.Files.Access
import WebOfTrust.Files.Buffered
import WebOfTrust.Files.Path
import WebOfTrust.Files.Tree
import WebOfTrust.Json.Codec
import WebOfTrust.Json.Text
import WebOfTrust.Json.Value
import WebOfTrust.KeyId
import WebOfTrust.KeyStatus
import WebOfTrust.Keyring.Certification
import WebOfTrust.Keyring.Identity
import WebOfTrust.Keyring.Key
import WebOfTrust.Main
import WebOfTrust.Number.Binary64
import WebOfTrust.Number.Checked
import WebOfTrust.Number.Decimal
import WebOfTrust.Number.Shortest
import WebOfTrust.Number.Written
import WebOfTrust.PolicyUriTable
import WebOfTrust.Proofs.Artifacts
import WebOfTrust.Proofs.BlockCounts
import WebOfTrust.Proofs.BlockFates
import WebOfTrust.Proofs.CanonicalCorpus
import WebOfTrust.Proofs.CommandLine.Resolution
import WebOfTrust.Proofs.Corpus
import WebOfTrust.Proofs.CorpusAttribution
import WebOfTrust.Proofs.CorpusCodec
import WebOfTrust.Proofs.CorpusGrammar
import WebOfTrust.Proofs.CurrentKey
import WebOfTrust.Proofs.DistinctKeys
import WebOfTrust.Proofs.Dump
import WebOfTrust.Proofs.Dump.Encoding
import WebOfTrust.Proofs.Dump.Escape
import WebOfTrust.Proofs.Files.Frame
import WebOfTrust.Proofs.Files.Tree
import WebOfTrust.Proofs.FirstLines
import WebOfTrust.Proofs.FirstPass
import WebOfTrust.Proofs.FixedPoint
import WebOfTrust.Proofs.Handover
import WebOfTrust.Proofs.Insertion
import WebOfTrust.Proofs.KeyOrder
import WebOfTrust.Proofs.Keyring.Consolidation
import WebOfTrust.Proofs.Keyring.Gain
import WebOfTrust.Proofs.Keyring.Holdings
import WebOfTrust.Proofs.Keyring.Key
import WebOfTrust.Proofs.Keyring.Retention
import WebOfTrust.Proofs.Keyring.Status
import WebOfTrust.Proofs.Lines
import WebOfTrust.Proofs.Number.Rounding
import WebOfTrust.Proofs.Outcome
import WebOfTrust.Proofs.Pipeline
import WebOfTrust.Proofs.Policies
import WebOfTrust.Proofs.PolicyAttribution
import WebOfTrust.Proofs.PolicyUriTable
import WebOfTrust.Proofs.Promotion
import WebOfTrust.Proofs.RawArtifacts
import WebOfTrust.Proofs.Refinement
import WebOfTrust.Proofs.Refusals
import WebOfTrust.Proofs.RepeatedLines
import WebOfTrust.Proofs.Resolver
import WebOfTrust.Proofs.Sections
import WebOfTrust.Proofs.StatusTable
import WebOfTrust.Proofs.StatusTableCodec
import WebOfTrust.Proofs.StrongSet.Accounting
import WebOfTrust.Proofs.StrongSet.Centrality
import WebOfTrust.Proofs.StrongSet.CertificationTables
import WebOfTrust.Proofs.StrongSet.Chunks
import WebOfTrust.Proofs.StrongSet.Clustering
import WebOfTrust.Proofs.StrongSet.ClusteringInWords
import WebOfTrust.Proofs.StrongSet.Diagnostics
import WebOfTrust.Proofs.StrongSet.Distribution
import WebOfTrust.Proofs.StrongSet.EdgeTotals
import WebOfTrust.Proofs.StrongSet.Graph
import WebOfTrust.Proofs.StrongSet.KeyStatistics
import WebOfTrust.Proofs.StrongSet.KeyTables
import WebOfTrust.Proofs.StrongSet.ListedMembers
import WebOfTrust.Proofs.StrongSet.LoadOrder
import WebOfTrust.Proofs.StrongSet.Loading
import WebOfTrust.Proofs.StrongSet.Relabeling
import WebOfTrust.Proofs.StrongSet.Representation
import WebOfTrust.Proofs.StrongSet.Series
import WebOfTrust.Proofs.StrongSet.Tally
import WebOfTrust.Proofs.Table
import WebOfTrust.Proofs.Text.Digits
import WebOfTrust.Proofs.Text.Fields
import WebOfTrust.Proofs.Text.Rows
import WebOfTrust.Proofs.Text.Utf8
import WebOfTrust.Proofs.TrustGain
import WebOfTrust.Refinement
import WebOfTrust.ResolutionError
import WebOfTrust.ResolutionSettings
import WebOfTrust.Resolver
import WebOfTrust.Resolver.InPlace
import WebOfTrust.Signature
import WebOfTrust.SignatureType
import WebOfTrust.StatusTable
import WebOfTrust.Stream
import WebOfTrust.StrongSet.AnalysisError
import WebOfTrust.StrongSet.Analyzer
import WebOfTrust.StrongSet.Breakdown
import WebOfTrust.StrongSet.Centrality
import WebOfTrust.StrongSet.Clustering
import WebOfTrust.StrongSet.Description
import WebOfTrust.StrongSet.Diagnostic
import WebOfTrust.StrongSet.Distribution
import WebOfTrust.StrongSet.Distribution.InPlace
import WebOfTrust.StrongSet.Graph
import WebOfTrust.StrongSet.Measures
import WebOfTrust.StrongSet.ReportText
import WebOfTrust.Table
import WebOfTrust.Tagged
import WebOfTrust.Text.Blank
import WebOfTrust.Text.Digits
import WebOfTrust.Text.Hidden
import WebOfTrust.Text.Quoted
import WebOfTrust.Text.Split
import WebOfTrust.Text.Utf8
import WebOfTrust.Toml.Document
import WebOfTrust.Toml.Quotes
import WebOfTrust.Toml.Value
import WebOfTrust.Toml.Word
import WebOfTrust.Toml.Written
