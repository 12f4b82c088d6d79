import WebOfTrust.Resolver

/-!
# `WebOfTrust.Refinement`: the second pass

Which keys are interesting is known only at the end of a dump. The second pass reads the raw corpus
again and leaves in each block the certifications by interesting keys, writes the first block of
each key that then has any, and promotes the keys of the blocks written in the key-status table. It
restricts the policy table to interesting issuers.
-/

set_option autoImplicit false

namespace WebOfTrust

/-- Counts of the second pass. `refine` returns them, and the summary of a run prints them. -/
structure Refinement where
  /-- Lines promoted in the key-status table. A key with several lines counts as often. -/
  certified : Nat := 0
  /-- Blocks written. -/
  edgeBlocks : Nat := 0
  /-- Certifications written. -/
  certifications : Nat := 0
  /-- Blocks of keys that are not interesting, whatever is in them, and blocks without
  certifications by interesting keys. -/
  droppedBlocks : Nat := 0
  /-- Further blocks of keys of which a block was written. -/
  duplicateBlocks : Nat := 0
  /-- Policies written. -/
  policyUris : Nat := 0
  deriving DecidableEq, Repr, Inhabited

/-! ### Blocks -/

/-- The members of a list, each at its first place only. Two members are the same if all their
fields are. Different ones can still be written as the same line, if their levels are unknown. -/
def distinct : List Signature → List Signature
  | [] => []
  | s :: rest => s :: (distinct rest).filter (· ≠ s)

/-- The block with the certifications by interesting keys, each of them once. `distinct` compares
whole certifications. -/
def EdgeBlock.restrict (interesting : KeySet KeyId) (b : EdgeBlock) : EdgeBlock :=
  { b with entries := distinct (b.entries.filter fun s => interesting.contains s.issuer) }

/-- The second pass among the blocks: the keys whose blocks are written, and the counts.
`BlockPass.count` changes it, block by block. -/
structure BlockPass where
  trusted : KeySet KeyId := ∅
  counts : Refinement := {}
  deriving Inhabited

/-- What becomes of a raw block. `BlockPass.fate` decides on it. -/
inductive BlockFate where
  | duplicate
  | dropped
  | written (block : EdgeBlock)

/-- A key of which a block is written has no further one; a block without certifications by
interesting keys is none. It looks at `trusted` first, and so counts a further block as a duplicate
whatever is in it. -/
def BlockPass.fate (p : BlockPass) (interesting : KeySet KeyId) (b : EdgeBlock) : BlockFate :=
  if p.trusted.contains b.signee then .duplicate
  else if interesting.contains b.signee then
    -- Certifications by other keys do not count, so the block may be left without any.
    let block := b.restrict interesting
    if block.entries.isEmpty then .dropped else .written block
  else .dropped

/-- Counts a block by its fate. A block that is written makes its signee `trusted`. -/
def BlockPass.count (p : BlockPass) : BlockFate → BlockPass
  | .duplicate => { p with counts.duplicateBlocks := p.counts.duplicateBlocks + 1 }
  | .dropped => { p with counts.droppedBlocks := p.counts.droppedBlocks + 1 }
  | .written b =>
    { trusted := p.trusted.add b.signee
      counts := { p.counts with
        edgeBlocks := p.counts.edgeBlocks + 1
        certifications := p.counts.certifications + b.entries.length } }

/-- Writes a block, if that is its fate. The other two fates leave the artifacts as they are. -/
def BlockFate.write (out : Artifacts) : BlockFate → Except ResolutionError Artifacts
  | .written b => out.writeBlock b
  | _ => .ok out

/-- The second pass over the rest of the raw corpus. It stops at the first error, of the reader or
of the sink. -/
def refineBlocks (interesting : KeySet KeyId) (p : BlockPass) (out : Artifacts) :
    List (Except ResolutionError EdgeBlock) → PassOutcome BlockPass
  | [] => ⟨out, .ok p⟩
  | .error e :: _ => ⟨out, .error e⟩
  | .ok b :: rest =>
    let fate := p.fate interesting b
    match fate.write out with
    | .error e => ⟨out, .error e⟩
    | .ok out => refineBlocks interesting (p.count fate) out rest

/-! ### Status lines -/

/-- The line of a key of which a block is written, promoted if its status allows.
`KeyStatus.transition` decides on that. -/
def StatusLine.promote (trusted : KeySet KeyId) (l : StatusLine) : StatusLine :=
  if trusted.contains l.keyId then
    match l.status.transition .certifiedByInterestingKey with
    | .ok status => { l with status }
    | .error _ => l
  else l

/-- The second pass over the rest of the raw key-status table; `certified` keys have been promoted
so far. -/
def refineStatus (trusted : KeySet KeyId) (certified : Nat) (out : Artifacts) :
    List (Except ResolutionError StatusLine) → PassOutcome Nat
  | [] => ⟨out, .ok certified⟩
  | .error e :: _ => ⟨out, .error e⟩
  | .ok l :: rest =>
    let promoted := l.promote trusted
    match out.writeStatus promoted with
    | .error e => ⟨out, .error e⟩
    | .ok out => refineStatus trusted (certified + if promoted = l then 0 else 1) out rest

/-! ### The pass -/

/-- The stage of the pass that reads the raw corpus. `Corpus.blocks` is given it for its errors. -/
def readingRawCorpus : String := "reading raw edge corpus"

/-- The artifacts of the second pass, in the order in which they are flushed. The order decides
which error is told if several flushes fail. -/
def refinedArtifacts : List Artifact := [.edgeCorpus, .keyStatus, .policyUris]

/-- The part of the second pass that reads the raw corpus. `refineBlocks` does it, from an empty
`BlockPass`. -/
def refineCorpus (first : FirstPass) (corpus : Source) (out : Artifacts) : PassOutcome BlockPass :=
  refineBlocks first.interesting {} out (Corpus.blocks readingRawCorpus corpus)

/-- The part of the second pass behind the raw corpus. It runs only if `refineCorpus` has
succeeded. -/
def refineTables (first : FirstPass) (p : BlockPass) (status : Source) (out : Artifacts) :
    PassOutcome Refinement :=
  let lines := refineStatus p.trusted 0 out (StatusTable.lines status)
  let out := lines.written
  match lines.result with
  | .error e => ⟨out, .error e⟩
  | .ok certified =>
    let policies := first.policyUris.retainIssuers first.interesting
    match out.writePolicies policies with
    | .error e => ⟨out, .error e⟩
    | .ok out =>
      ⟨out, (refinedArtifacts.forM out.flush).map fun _ =>
        { p.counts with certified, policyUris := policies.size }⟩

/-- The second pass over the artifacts of the first. The policy table is written only here,
restricted to the issuers that are interesting. -/
def refine (first : FirstPass) (corpus status : Source) (out : Artifacts) :
    PassOutcome Refinement :=
  let blocks := refineCorpus first corpus out
  match blocks.result with
  | .error e => ⟨blocks.written, .error e⟩
  | .ok p => refineTables first p status blocks.written

end WebOfTrust
