import WebOfTrust.CommandLine.Failure
import WebOfTrust.Configuration
import WebOfTrust.Files.Buffered
import WebOfTrust.Refinement
import WebOfTrust.StrongSet.ReportText

/-!
# `WebOfTrust.CommandLine.Stages`: the stages of a run over files

A run has two stages. The first resolves a dump: the first pass leaves scratch files, from which the
second pass makes the artifacts. The second stage analyses the artifacts and saves the report. Both
are programs over the requests to a file system, which stays as a failed stage left it.

- `Configuration.load`, `Configuration.save`: the configuration of a run;
- `resolveStage`, `analyzeStage`: the stages;
- `analyzeFiles`, `Report.save`: the parts of the second one.
-/

set_option autoImplicit false

namespace WebOfTrust

variable {m : Type → Type} [Monad m]

/-- Goes on with a result; `f` tells its error in the words of the caller. -/
def accept {δ ε α : Type} (f : δ → ε) (r : Except δ α) : ExceptT ε m α :=
  ExceptT.mk (pure (r.mapError f))

variable [FileAccess m]

/-! ### Configurations -/

/-- Reads a configuration; one that is missing is the default one. `pathExists` is asked first, so a
path that cannot be looked at counts as missing. -/
def Configuration.load (path : String) : ExceptT Failure m Configuration := do
  if ← ExceptT.lift (FileAccess.pathExists path) then
    let source ← request (.readingConfiguration path) (FileAccess.read path)
    let text ← accept (.readingConfiguration path) source.text
    match Configuration.parse text with
    | some c => return c
    | none => throw (.parsingConfiguration path)
  else return {}

/-- Writes a configuration, and makes the directory that it is in. `Path.parents` names that
directory. -/
def Configuration.save (c : Configuration) (path : String) : ExceptT IoError m Unit := do
  match Path.parents path with
  | [] => pure ()
  | parent :: _ => makeDirectories parent
  let handle ← request id (FileAccess.create path)
  let _ ← request id (FileAccess.write handle c.text)

/-! ### Resolution -/

/-- Opens a file for writing. An artifact that is there already loses its contents at this point. -/
def createFile (path : String) : ExceptT Failure m (BufferedFile m) := do
  return { handle := ← request (.creating path) (FileAccess.create path) }

/-- Opens a file for reading. The whole file is taken as a `Source`, which delivers its lines
later. -/
def openFile (path : String) : ExceptT Failure m Source :=
  request (.opening path) (FileAccess.read path)

/-- The artifacts that a pass has open, in the order in which it opened them. `onFile` looks a file
up in it. -/
abbrev OpenArtifacts (m : Type → Type) [FileAccess m] : Type := List (Artifact × BufferedFile m)

/-- A pass at work on its files. The state is below the error, so that `carryOut` sees the files of
a pass that failed. -/
abbrev Pass (m : Type → Type) [FileAccess m] (α : Type) : Type :=
  ExceptT ResolutionError (StateT (OpenArtifacts m) m) α

namespace Pass

/-- Acts on the file of an artifact. If the artifact is not open, nothing is done. -/
def onFile (a : Artifact) (act : FileAction m Unit) : Pass m Unit := do
  match (← get).lookup a with
  | none => return ()
  | some file =>
    let (result, file) ← (file.carryOut act : m (Except IoError Unit × BufferedFile m))
    modify fun files => files.map fun f => if f.1 = a then (a, file) else f
    accept (.io a.stage) result

/-- Does what a pass did: writes what it wrote, in the same order, and goes on with its result.
`written.journal` has all of it, also if the result is an error. -/
def replay {α : Type} (outcome : PassOutcome α) : Pass m α := do
  outcome.written.journal.forM fun entry =>
    onFile entry.artifact (entry.pieces.forM BufferedFile.put)
  accept id outcome.result

/-- Flushes artifacts. They are flushed in the order of the list, up to the first failure. -/
def flush (artifacts : List Artifact) : Pass m Unit :=
  artifacts.forM fun a => onFile a BufferedFile.flush

/-- Carries out a pass. In the end the files are given up, the last one first; a pass that fails
leaves what it had written until then. `abandon` gives a file up, and empties its buffer. -/
def carryOut {α : Type} (files : OpenArtifacts m) (pass : Pass m α) :
    ExceptT ResolutionError m α := do
  let (result, files) ← ExceptT.lift (pass.run.run files)
  files.reverse.forM fun (_, file) => ExceptT.lift file.abandon
  accept id result

end Pass

/-- The first pass over a dump, from which it makes scratch files. `replay` carries out what
`resolve` did. -/
def firstPassStage (c : Configuration) : ExceptT Failure m FirstPass := do
  let dump := c.paths.locate c.paths.dump
  -- A dump that cannot be opened leaves both scratch files behind, without contents.
  let status ← createFile (c.paths.scratch c.paths.keyStatus)
  let corpus ← createFile (c.paths.scratch c.paths.edgeCorpus)
  let source ← openFile dump
  ExceptT.adapt (.firstPass dump)
    (Pass.carryOut [(.keyStatus, status), (.edgeCorpus, corpus)] do
      let first ← Pass.replay (resolve c.resolver source {})
      Pass.flush rawArtifacts
      return first)

/-- The second pass over the scratch files, from which it makes the artifacts. `replay` carries out
what `refine` did. -/
def secondPassStage (c : Configuration) (first : FirstPass) : ExceptT Failure m Refinement := do
  let corpus ← createFile (c.paths.locate c.paths.edgeCorpus)
  let status ← createFile (c.paths.locate c.paths.keyStatus)
  let policy ← createFile (c.paths.locate c.paths.policyUris)
  let rawCorpus ← openFile (c.paths.scratch c.paths.edgeCorpus)
  let rawStatusPath := c.paths.scratch c.paths.keyStatus
  let _ ← openFile rawStatusPath
  ExceptT.adapt .secondPass
    (Pass.carryOut [(.edgeCorpus, corpus), (.keyStatus, status), (.policyUris, policy)] do
      let blocks ← Pass.replay (refineCorpus first rawCorpus {})
      -- The raw table is read only now: if it shares its file with the corpus, it has become what
      -- the buffer of the corpus let through.
      let rawStatus ← request (.io StatusTable.readingStage)
        (liftM (FileAccess.read (m := m) rawStatusPath))
      let refinement ← Pass.replay (refineTables first blocks rawStatus {})
      Pass.flush refinedArtifacts
      return refinement)

/-- Removes a scratch file. A failure of it ends the command, although the artifacts are
complete. -/
def removeScratch (path : String) : ExceptT Failure m Unit :=
  request (.removing path) (FileAccess.remove path)

/-- Makes the artifacts of a dump. The scratch files are removed only when both passes have
succeeded. -/
def resolveStage (c : Configuration) : ExceptT Failure m Refinement := do
  let directory := c.paths.dataDirectory
  ExceptT.adapt (.makingDataDirectory directory) (makeDirectories directory)
  let first ← firstPassStage c
  let refinement ← secondPassStage c first
  removeScratch (c.paths.scratch c.paths.keyStatus)
  removeScratch (c.paths.scratch c.paths.edgeCorpus)
  return refinement

/-! ### Analysis -/

/-- The files that are analysed. Two of them are artifacts, the other two come from elsewhere. -/
structure AnalysisInputs where
  connectivity : String
  centrality : String
  edgeCorpus : String
  keyStatus : String
  deriving DecidableEq, Repr, Inhabited

/-- Opens a file for analysis. The error names the path, in `AnalysisError.file`. -/
def openInput (path : String) : ExceptT AnalysisError m Source :=
  request (.file path) (FileAccess.read path)

/-- Loads a corpus; its errors end the analysis. What was loaded before the error is given up with
it. -/
def Analyzer.takeCorpus (a : Analyzer) (corpus : Source) : Except ResolutionError Analyzer :=
  match a.loadCorpus corpus with
  | (a, none) => .ok a
  | (_, some e) => .error e

/-- Analyses files. Each is opened when those before it are loaded. So a missing file is told only
when all before it could be read. -/
def analyzeFiles (inputs : AnalysisInputs) (settings : AnalyticsSettings) (presentYear : Nat) :
    ExceptT AnalysisError m Report := do
  let a := Analyzer.start settings presentYear
  let rows ← accept id (readConnectivity (← openInput inputs.connectivity))
  let a := a.loadConnectivity rows
  let rows ← accept id (readCentrality (← openInput inputs.centrality))
  let a := a.loadCentrality rows
  let a ← accept .resolution (a.takeCorpus (← openInput inputs.edgeCorpus))
  let a ← accept .resolution (a.loadStatus (← openInput inputs.keyStatus))
  return a.finish

/-- Saves a report. The text is that of `Report.write`, given to the buffer line by line. -/
def Report.save (stamp : RunStamp) (r : Report) (path : String) :
    ExceptT AnalysisError m Unit := do
  let handle ← request (.file path) (FileAccess.create path)
  let out ← accept id (r.write stamp {})
  let lines := Text.interleave '\n' (Text.fieldsOf '\n' out.text)
  let (result, file) ←
    ExceptT.lift (BufferedFile.carryOut { handle } (lines.forM BufferedFile.put))
  accept .report result
  let (result, _) ← ExceptT.lift (file.carryOut BufferedFile.flush)
  accept (.file path) result

/-- Analyses the artifacts and saves the report. The paths of both are in the section `paths` of the
configuration. -/
def analyzeStage (c : Configuration) (stamp : RunStamp) (presentYear : Nat) :
    ExceptT Failure m Report := do
  let inputs := {
    connectivity := c.paths.locate c.paths.connectivity
    centrality := c.paths.locate c.paths.centrality
    edgeCorpus := c.paths.locate c.paths.edgeCorpus
    keyStatus := c.paths.locate c.paths.keyStatus }
  let report ← ExceptT.adapt .analysis (analyzeFiles inputs c.analytics presentYear)
  let target := c.paths.locate c.paths.report
  ExceptT.adapt (.writingReport target) (report.save stamp target)
  return report

end WebOfTrust
