import WebOfTrust.Files.Path
import WebOfTrust.Json.Codec
import WebOfTrust.Toml.Document
import WebOfTrust.Toml.Written

/-!
# `WebOfTrust.Configuration`: the settings of a run

A run is set up by a TOML document with four sections. A setting that is absent has its default, and
unknown ones are ignored. A section may also be an array of its first settings in their order.

- `DataFiles.locate`, `DataFiles.scratch`: where the files of a run are;
- `Configuration.parse`, `Configuration.text`: the document read and written.
-/

set_option autoImplicit false

namespace WebOfTrust

/-- The files of a run. Relative names are taken from the data directory. `DataFiles.locate` puts it
in front. -/
structure DataFiles where
  dataDirectory : String := "./data"
  /-- The dump of the keyring. -/
  dump : String := "pgpring.dump"
  keyStatus : String := "keystatus.csv"
  edgeCorpus : String := "preprocessed"
  policyUris : String := "policyuris.csv"
  connectivity : String := "msd.csv"
  centrality : String := "centrality.csv"
  report : String := "report.json"
  deriving DecidableEq, Repr, Inhabited

/-- The path of a file. It is `Path.join`, so an absolute name stays as it is. -/
def DataFiles.locate (f : DataFiles) (file : String) : String :=
  Path.join f.dataDirectory file

/-- The path of the scratch file beside a file, in which the first pass leaves what the second one
makes the file of. Both passes name it by this function. -/
def DataFiles.scratch (f : DataFiles) (file : String) : String :=
  f.locate file ++ ".tmp"

/-- What is logged. The names are not looked at, beyond being texts. -/
structure LoggingSettings where
  level : String := "info"
  format : String := "text"
  deriving DecidableEq, Repr, Inhabited

/-- The configuration of a run: a section for each of its parts, with defaults for all of them.
`Configuration.parse` reads one, and `Configuration.text` writes one. -/
structure Configuration where
  resolver : ResolutionSettings := {}
  analytics : AnalyticsSettings := {}
  paths : DataFiles := {}
  logging : LoggingSettings := {}
  deriving DecidableEq, Repr, Inhabited

/-! ### Reading -/

/-- A section of a document. Of an array, members past the `count` settings are ignored. -/
def sectionOf (document : List (String × Json)) (name : String) (count : Nat) : Json :=
  match document.lookup name with
  | none => .object []
  | some (.array items) => .array (items.take count)
  | some j => j

open Json in
/-- Reads the section of the files. A name that is not given has its default, and one of the wrong
type makes the whole configuration unreadable. `setting` has this rule for every section. -/
def readDataFiles (j : Json) : Option DataFiles := do
  let given ← settingsOf ["data_dir", "dump", "key_status", "edge_corpus", "policy_uris",
    "connectivity", "centrality", "report"] j
  let d : DataFiles := {}
  return {
    dataDirectory := ← setting given "data_dir" readString d.dataDirectory
    dump := ← setting given "dump" readString d.dump
    keyStatus := ← setting given "key_status" readString d.keyStatus
    edgeCorpus := ← setting given "edge_corpus" readString d.edgeCorpus
    policyUris := ← setting given "policy_uris" readString d.policyUris
    connectivity := ← setting given "connectivity" readString d.connectivity
    centrality := ← setting given "centrality" readString d.centrality
    report := ← setting given "report" readString d.report }

open Json in
/-- Reads the section of the log, in the same way. The sections differ in their fields only. -/
def readLoggingSettings (j : Json) : Option LoggingSettings := do
  let given ← settingsOf ["level", "format"] j
  let d : LoggingSettings := {}
  return {
    level := ← setting given "level" readString d.level
    format := ← setting given "format" readString d.format }

namespace Configuration

/-- The configuration of a document. A section that is missing has all its defaults, by
`sectionOf`. -/
def ofFields (document : Toml.Fields) : Option Configuration := do
  let document := Toml.fieldsToJson document
  return {
    resolver := ← Json.readResolutionSettings (sectionOf document "resolver" 5)
    analytics := ← Json.readAnalyticsSettings (sectionOf document "analytics" 2)
    paths := ← readDataFiles (sectionOf document "paths" 8)
    logging := ← readLoggingSettings (sectionOf document "logging" 2) }

/-- Reads a configuration. The text is a TOML document, and `none` stands for one that cannot be
read. -/
def parse (text : String) : Option Configuration := do
  ofFields (← Toml.parse text)

/-! ### Writing -/

/-- The sections of a document. `Configuration.text` lists them in this order. -/
def sections (c : Configuration) : List (String × List (String × Toml.Setting)) :=
  [("resolver", [
      ("exclude_expired_certifications", .boolean c.resolver.excludeExpired),
      ("exclude_revoked_certifications", .boolean c.resolver.excludeRevoked),
      ("exclude_deprecated_hash_algorithms", .boolean c.resolver.excludeDeprecated),
      ("deprecated_hash_algorithms",
        .integers (c.resolver.deprecatedHashes.map fun n => (n.toNat : Int))),
      ("progress_interval", .integer c.resolver.progressInterval.toNat)]),
    ("analytics", [
      ("workers", .integer c.analytics.workers.toNat),
      ("current_year", .integer c.analytics.currentYear.toInt)]),
    ("paths", [
      ("data_dir", .string c.paths.dataDirectory),
      ("dump", .string c.paths.dump),
      ("key_status", .string c.paths.keyStatus),
      ("edge_corpus", .string c.paths.edgeCorpus),
      ("policy_uris", .string c.paths.policyUris),
      ("connectivity", .string c.paths.connectivity),
      ("centrality", .string c.paths.centrality),
      ("report", .string c.paths.report)]),
    ("logging", [
      ("level", .string c.logging.level),
      ("format", .string c.logging.format)])]

/-- The document of a configuration. Every setting is in it, those with default values as well. -/
def text (c : Configuration) : String := Toml.sectionsText c.sections

end Configuration

end WebOfTrust
