import WebOfTrust.StrongSet.AnalysisError
import WebOfTrust.Text.Split

/-!
# `WebOfTrust.CommandLine.Failure`: why a command fails

A failure names what the command was about to do, and its causes say why that failed, the nearest
first.
-/

set_option autoImplicit false

namespace WebOfTrust

/-- What lies behind an error of a pass. Only an `io` error has something behind it. -/
def ResolutionError.causes : ResolutionError → List IoError
  | io _ error => [error]
  | _ => []

/-- What lies behind an error of an analysis. It is the list that `Failure.causes` continues
with. -/
def AnalysisError.causes : AnalysisError → List IoError
  | file _ error => [error]
  | reading _ error => [error]
  | malformed .. => []
  | resolution error => error.causes
  | report error => [error]

/-- Why a command fails. Each constructor is one step of a command that can go wrong. -/
inductive Failure where
  /-- A configuration would be overwritten. -/
  | configurationExists (path : String)
  /-- A file system request fails that needs no further word. -/
  | files (error : IoError)
  | readingConfiguration (path : String) (error : IoError)
  | parsingConfiguration (path : String)
  | makingDataDirectory (path : String) (error : IoError)
  | creating (path : String) (error : IoError)
  | opening (path : String) (error : IoError)
  | removing (path : String) (error : IoError)
  | firstPass (dump : String) (error : ResolutionError)
  | secondPass (error : ResolutionError)
  | analysis (error : AnalysisError)
  | writingReport (path : String) (error : AnalysisError)
  deriving DecidableEq, Repr

namespace Failure

/-- What failed. Why it failed is told by `causes`. -/
def message : Failure → String
  | configurationExists path => "configuration file already exists at " ++ path
  | files error => error.message
  | readingConfiguration path _ => "reading " ++ path
  | parsingConfiguration path => "parsing " ++ path
  | makingDataDirectory path _ => "creating data directory " ++ path
  | creating path _ => "creating " ++ path
  | opening path _ => "opening " ++ path
  | removing path _ => "removing " ++ path
  | firstPass dump _ => "first pass over " ++ dump
  | secondPass _ => "second pass over the first-pass artifacts"
  | analysis _ => "strong-set analytics"
  | writingReport path _ => "writing report " ++ path

/-- Why it failed, the nearest cause first. The list is empty where `message` says everything. -/
def causes : Failure → List String
  | configurationExists _ => []
  | files _ => []
  | readingConfiguration _ error => [error.message]
  | parsingConfiguration _ => ["TOML parse error"]
  | makingDataDirectory _ error => [error.message]
  | creating _ error => [error.message]
  | opening _ error => [error.message]
  | removing _ error => [error.message]
  | firstPass _ error => error.message :: error.causes.map IoError.message
  | secondPass error => error.message :: error.causes.map IoError.message
  | analysis error => error.message :: error.causes.map IoError.message
  | writingReport _ error => error.message :: error.causes.map IoError.message

/-- A cause behind its lead, with its further lines as deep as its first one. `lead` is the number
of the cause, or the blanks in place of it. -/
def causeText (lead cause : String) : String :=
  let margin := "\n" ++ String.ofList (List.replicate lead.length ' ')
  "\n" ++ lead ++ margin.intercalate (Text.fieldsOf '\n' cause)

/-- The text of a failure. Several causes are numbered. `CommandOutcome.outcome` prints it to the
error output. -/
def text (f : Failure) : String :=
  "Error: " ++ f.message ++
    (match f.causes with
      | [] => ""
      | [cause] => "\n\nCaused by:" ++ causeText "    " cause
      | causes =>
        "\n\nCaused by:" ++ String.join (causes.zipIdx.map fun (cause, n) =>
          causeText ("    " ++ toString n ++ ": ") cause)) ++ "\n"

end Failure

end WebOfTrust
