import WebOfTrust.Corpus
import WebOfTrust.PolicyUriTable
import WebOfTrust.StatusTable

/-!
# `WebOfTrust.Artifacts`: what the passes write

Both passes write a key-status table and an edge corpus, and the second one a policy table beside
them. `Artifacts` holds what each of them has become so far, and the journal of what was written in
which order: who puts the artifacts into files follows the journal, so that files hold at any time
what they would if each write went to its file at once.

- `Artifacts.write`: writes to one artifact;
- `Artifacts.writeStatus`, `writeBlock`, `writePolicies`: the artifacts, each in its own form;
- `Artifacts.flush`: hands on what one artifact has become.
-/

set_option autoImplicit false

namespace WebOfTrust

/-- The files that the passes write. The raw and the final artifacts of one kind have one name, as
no pass writes both. `Artifact.stage` tells them apart in errors. -/
inductive Artifact where
  | keyStatus
  | edgeCorpus
  | policyUris
  deriving DecidableEq, Repr

/-- What a pass does with an artifact, as messages say it. A `ResolutionError.io` names the stage in
which it occurred. -/
def Artifact.stage : Artifact → String
  | keyStatus => "writing key-status table"
  | edgeCorpus => "writing edge corpus"
  | policyUris => "writing policy-URI table"

/-- One thing written to an artifact, in pieces. A buffer takes a piece as a whole, so the pieces
decide what a file holds while it is written. Joined, they are the text that `Artifacts.write` gives
to the sink. -/
structure JournalEntry where
  artifact : Artifact
  pieces : List String
  deriving DecidableEq, Repr

/-- What a pass has written. The sinks tell each artifact by itself, and `journal` tells the order
between them. -/
structure Artifacts where
  /-- The key-status table. -/
  status : Sink := {}
  /-- The edge corpus. -/
  corpus : Sink := {}
  /-- The policy table. -/
  policy : Sink := {}
  /-- All that was written, in its order. -/
  journal : Array JournalEntry := #[]
  deriving Inhabited

/-- What a pass leaves behind: all that it wrote, and its result or the error that ended it. A pass
that fails has written something all the same. Lemmas about success look at `result`, those about
failure at `written`. -/
structure PassOutcome (α : Type) where
  written : Artifacts
  result : Except ResolutionError α
  deriving Inhabited

namespace Artifacts

/-- The sink of an artifact, by which lemmas speak of all three at once. `withSink` puts one
back. -/
def sink (out : Artifacts) : Artifact → Sink
  | .keyStatus => out.status
  | .edgeCorpus => out.corpus
  | .policyUris => out.policy

/-- The artifacts with another sink for one of them. The journal is not touched by this. `sink` and
`withSink` are to each other as a field and its update. -/
def withSink (out : Artifacts) (k : Sink) : Artifact → Artifacts
  | .keyStatus => { out with status := k }
  | .edgeCorpus => { out with corpus := k }
  | .policyUris => { out with policy := k }

/-- Writes pieces of text to an artifact: the sink takes them as one text, and the journal as they
are. An error of the sink is told with the stage of the artifact. On an error nothing is returned,
as the pass ends there. -/
def write (out : Artifacts) (a : Artifact) (pieces : List String) :
    Except ResolutionError Artifacts := do
  let k ← ((out.sink a).write (String.join pieces)).mapError (.io a.stage)
  return { out.withSink k a with journal := out.journal.push ⟨a, pieces⟩ }

/-- Writes a line of the key-status table, in the pieces of `StatusLine.pieces`. -/
def writeStatus (out : Artifacts) (l : StatusLine) : Except ResolutionError Artifacts :=
  out.write .keyStatus l.pieces

/-- Writes a block of the edge corpus, in the pieces of `EdgeBlock.pieces`. -/
def writeBlock (out : Artifacts) (b : EdgeBlock) : Except ResolutionError Artifacts :=
  out.write .edgeCorpus b.pieces

/-- Writes the policy table, all of it at once. The lines come from `PolicyUriTable.pieces`. -/
def writePolicies (out : Artifacts) (t : PolicyUriTable) : Except ResolutionError Artifacts :=
  out.write .policyUris t.pieces

/-- Hands on what an artifact has become. Only then a `Sink` may tell that it cannot. -/
def flush (out : Artifacts) (a : Artifact) : Except ResolutionError Unit :=
  (out.sink a).flush.mapError (.io a.stage)

end Artifacts

end WebOfTrust
