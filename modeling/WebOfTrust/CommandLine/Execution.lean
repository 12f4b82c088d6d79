import WebOfTrust.CommandLine.Arguments
import WebOfTrust.CommandLine.Stages

/-!
# `WebOfTrust.CommandLine.Execution`: the commands carried out

A command prints what it has done, and its failure if it fails. What it printed before a failure
stays printed.

Log lines are left out. They tell of the progress of a run, and no function reads them, so that the
settings for them (`LoggingSettings`, `ResolutionSettings.progressInterval`) are only read, kept and
written back. Neither are there any tasks: a worker is the chunk of coefficients that it computes
(`CoefficientChunk`), and chunks are collected in whatever order they arrive.

- `Command.execute`: one command;
- `execute`: the program, from its arguments to what it prints.
-/

set_option autoImplicit false

namespace WebOfTrust

/-! ### Summaries -/

/-- Lines of text. Each of them ends with a line feed. -/
def linesText (lines : List String) : String := String.join (lines.map (· ++ "\n"))

/-- What is told of a configuration that was written. The path of the dump is that of
`DataFiles.locate`. -/
def initialSummary (path : String) (c : Configuration) : List String :=
  ["Wrote default configuration to " ++ path,
    "Place the keyring dump at " ++ c.paths.locate c.paths.dump,
    "Run 'wot run' to resolve the dump and compute statistics."]

/-- What is told of artifacts. It ends with the paths of the artifacts, so that they are found. -/
def Refinement.summary (r : Refinement) (paths : DataFiles) : List String :=
  ["Resolution complete:",
    "  Certified keys:      " ++ toString r.certified,
    "  Edge blocks:         " ++ toString r.edgeBlocks,
    "  Certifications:      " ++ toString r.certifications,
    "  Policy URIs:         " ++ toString r.policyUris,
    "  Key status table:    " ++ paths.locate paths.keyStatus,
    "  Edge corpus:         " ++ paths.locate paths.edgeCorpus]

/-- What is told of artifacts before they are analysed. The command that does both uses it in place
of `Refinement.summary`. -/
def Refinement.headline (r : Refinement) : List String :=
  ["Resolution complete: " ++ toString r.certified ++ " certified keys, " ++
    toString r.edgeBlocks ++ " edge blocks"]

/-- A number in a summary, with six places. It is `Number.fixedText`, which rounds. -/
def summaryNumber (x : Float) : String := Number.fixedText 6 (.ofFloat x)

/-- What is told of a report. The run is named by its `RunStamp`. -/
def Report.summary (stamp : RunStamp) (r : Report) : List String :=
  ["Analytics complete (run " ++ stamp.runId ++ "):",
    "  Reachable set:       " ++ toString r.reachableSetSize,
    "  Strong set:          " ++ toString r.strongSetSize,
    "  Centralization:      " ++ summaryNumber r.centralization.index,
    "  Global clustering:   " ++ summaryNumber r.globalClustering] ++
  (if r.diagnostics.isEmpty then []
    else "  Diagnostics:" :: r.diagnostics.map fun d => "    - " ++ d.message)

/-! ### Commands -/

/-- What the circumstances of a run decide. `execute` takes them as an argument, so it is a function
of them. -/
structure Circumstances where
  stamp : RunStamp
  presentYear : Nat
  deriving Inhabited

/-- What a command has printed, and the failure that ended it. A command that fails has printed
something all the same. -/
structure CommandOutcome where
  printed : List String := []
  failure : Option Failure := none
  deriving DecidableEq, Repr, Inhabited

namespace CommandOutcome

/-- The outcome of a step; `f` tells what it prints. -/
def ofResult {α : Type} (f : α → List String) : Except Failure α → CommandOutcome
  | .ok a => { printed := f a }
  | .error e => { failure := some e }

/-- The outcome of a step after others. What the step prints comes behind `printed`. -/
def after (printed : List String) (o : CommandOutcome) : CommandOutcome :=
  { o with printed := printed ++ o.printed }

end CommandOutcome

variable {m : Type → Type} [Monad m] [FileAccess m]

/-- Writes a default configuration, and makes its data directory. If there is a file at its path
already, the command fails, unless `force` is given. -/
def initialStage (path : String) (dataDirectory : Option String) (force : Bool) :
    ExceptT Failure m Configuration := do
  if (← ExceptT.lift (FileAccess.pathExists path)) && !force then
    throw (.configurationExists path)
  let d : DataFiles := {}
  let c : Configuration := { paths.dataDirectory := dataDirectory.getD d.dataDirectory }
  ExceptT.adapt .files (c.save path)
  ExceptT.adapt .files (makeDirectories c.paths.dataDirectory)
  return c

/-- The configuration of a run, with what its options replace. `Configuration.load` reads it
first. -/
def RunOptions.configure (o : RunOptions) (workers : Option UInt64) :
    ExceptT Failure m Configuration := do
  let c ← Configuration.load o.configuration
  return { c with
    paths.dataDirectory := o.dataDirectory.getD c.paths.dataDirectory
    logging.level := o.logLevel.getD c.logging.level
    analytics.workers := workers.getD c.analytics.workers }

/-- Carries out a command. Its stages run over the requests of `FileAccess`, so the same definition
is run by the system and by `FileTree`. -/
def Command.execute (present : Circumstances) : Command → m CommandOutcome
  | .setUp path dataDirectory force => do
    let result ← (initialStage path dataDirectory force).run
    return .ofResult (initialSummary path) result
  | .resolve options => do
    let result ← (do
      let c ← options.configure none
      return ((← resolveStage c).summary c.paths) : ExceptT Failure m (List String)).run
    return .ofResult id result
  | .analyze options workers => do
    let result ← (do
      let c ← options.configure workers
      analyzeStage c present.stamp present.presentYear : ExceptT Failure m Report).run
    return .ofResult (Report.summary present.stamp) result
  | .run options workers => do
    let result ← (do
      let c ← options.configure workers
      return (c, ← resolveStage c) : ExceptT Failure m (Configuration × Refinement)).run
    match result with
    | .error e => return { failure := some e }
    | .ok (c, refinement) =>
      let result ← (analyzeStage c present.stamp present.presentYear).run
      return .after refinement.headline (.ofResult (Report.summary present.stamp) result)

/-! ### The program -/

/-- What the program leaves: its exit code, and what it prints to its two outputs. `main` prints
both texts and exits with the code. -/
structure Outcome where
  exitCode : UInt8
  output : String := ""
  errors : String := ""
  deriving DecidableEq, Repr, Inhabited

/-- How the program is used. It is printed by `help`, and behind a `UsageError`. -/
def usage : String := linesText [
  "Usage: wot <COMMAND> [OPTIONS]",
  "",
  "Commands:",
  "  init     Write a default configuration file",
  "  resolve  Resolve the keyring dump into the status table and edge corpus",
  "  analyze  Compute strong-set statistics from the resolved artifacts",
  "  run      Resolve, then analyze",
  "",
  "Options:",
  "  -c, --config <PATH>      The configuration file, wot.toml by default",
  "      --data-dir <PATH>    The data directory, in place of the configured one",
  "      --force              Overwrite an existing configuration (init)",
  "      --log-level <LEVEL>  The log level, in place of the configured one",
  "      --workers <COUNT>    The number of workers (analyze, run)",
  "  -h, --help               Print this text",
  "  -V, --version            Print the version"]

/-- What the program leaves after a command: zero and what it printed, or one and the text of its
failure beside that. `Failure.text` is that text. -/
def CommandOutcome.outcome (o : CommandOutcome) : Outcome :=
  let output := linesText o.printed
  match o.failure with
  | none => { exitCode := 0, output }
  | some e => { exitCode := 1, output, errors := e.text }

/-- The program, from its arguments to what it leaves. Arguments that are not understood have an
exit code of their own. It is 2, where a command that fails has 1. -/
def execute (present : Circumstances) (arguments : List String) : m Outcome :=
  match Invocation.parse arguments with
  | .error e => return { exitCode := 2, errors := "error: " ++ e.message ++ "\n\n" ++ usage }
  | .ok .help => return { exitCode := 0, output := usage }
  | .ok .version => return { exitCode := 0, output := "wot 0.1.0\n" }
  | .ok (.command c) => return (← c.execute present).outcome

end WebOfTrust
