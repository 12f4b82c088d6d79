import WebOfTrust.Artifacts
import WebOfTrust.Keyring.Key

/-!
# `WebOfTrust.Resolver`: the first pass

The first pass reads a dump record by record. Records belong to the latest key; a further key, or
the end of the dump, completes it. Each completed key gives a line of the key-status table and, if
it is interesting, a block of the raw edge corpus. A record out of place is refused and changes
nothing.

- `Resolver.push`, `Resolver.finish`: one record, and the end;
- `resolve`: a whole dump.
-/

set_option autoImplicit false

namespace WebOfTrust

open Dump

/-! ### Records one by one -/

/-- The first pass between two records: the key at which it is, and what it has gathered of the keys
before. `push` and `finish` take it from one record to the next. -/
structure Resolver where
  /-- The settings, which do not change during a pass. -/
  settings : ResolutionSettings
  /-- The key to which records belong. -/
  current : Option Key := none
  /-- The issuer of the latest certification of that key, which a policy URI belongs to. -/
  lastIssuer : Option KeyId := none
  /-- The interesting keys that are complete. -/
  interesting : KeySet KeyId := ∅
  /-- The policies that have been declared, by whomever. -/
  policyUris : PolicyUriTable := ∅
  /-- The number of keys met. -/
  keys : Nat := 0

namespace Resolver

/-- Completes the current key. What the key gives is gathered in `interesting`, and the key is
returned. -/
def commitCurrent (r : Resolver) : Resolver × Option CommittedKey :=
  match r.current with
  | none => (r, none)
  | some key =>
    let committed := key.commit r.settings
    ({ r with
        current := none
        interesting :=
          if committed.isInteresting then r.interesting.add committed.keyId else r.interesting },
      some committed)

/-- The key to which a record of the given kind belongs. Without a current key the record is
misplaced, as a `Misplacement` tells. -/
def owner (r : Resolver) (kind : LineKind) : Except Misplacement Key :=
  match r.current with
  | some key => .ok key
  | none => .error (.beforeAnyKey kind)

/-- Takes a record, and completes the key before a further one. If it is refused, there is no new
state; `pushInPlace` looks at what is left then. -/
def push (r : Resolver) : Record → Except Misplacement (Resolver × Option CommittedKey)
  | .pub record =>
    let (r, committed) := r.commitCurrent
    .ok ({ r with current := some { record }, lastIssuer := none, keys := r.keys + 1 }, committed)
  | .uid record => do
    let key ← r.owner .uid
    return ({ r with current := some (key.addIdentity { userId := record.userId }) }, none)
  | .sig signature => do
    let key ← r.owner .sig
    let key ← key.certify r.settings (.ofSignature signature)
    return ({ r with current := some key, lastIssuer := some signature.issuer }, none)
  | .rev revocation => do
    let key ← r.owner .rev
    let key ← key.revoke revocation
    return ({ r with current := some key }, none)
  | .spk record =>
    if record.isPolicyUri then
      match r.lastIssuer with
      | some issuer =>
        .ok ({ r with policyUris := r.policyUris.add ⟨issuer, record.data⟩ }, none)
      | none => .error .policyUriBeforeSignature
    else .ok (r, none)

/-- Completes the last key. It is what a `pub` record does to the key before it. -/
def finish (r : Resolver) : Resolver × Option CommittedKey :=
  { r with lastIssuer := none }.commitCurrent

end Resolver

/-! ### Whole dumps -/

/-- What the first pass tells the second. `refine` takes nothing else from the first pass, besides
the artifacts. -/
structure FirstPass where
  /-- The keys that are valid and certified by somebody else. -/
  interesting : KeySet KeyId := ∅
  /-- The policies of every issuer. -/
  policyUris : PolicyUriTable := ∅
  /-- The number of keys. -/
  keys : Nat := 0
  /-- The number of blocks in the raw corpus. -/
  edgeBlocks : Nat := 0
  deriving DecidableEq, Inhabited

/-- What is handed on when the last key is complete. The number of blocks is counted by the loop
that writes them. So it is a parameter here. -/
def Resolver.firstPass (r : Resolver) (edgeBlocks : Nat) : FirstPass :=
  { interesting := r.interesting, policyUris := r.policyUris, keys := r.keys, edgeBlocks }

namespace Artifacts

/-- Writes what a completed key gives. The line of the table comes before the block. -/
def emit (out : Artifacts) (key : CommittedKey) : Except ResolutionError Artifacts := do
  let out ← out.writeStatus key.statusLine
  match key.edgeBlock with
  | none => return out
  | some block => out.writeBlock block

/-- Writes what a completed key gives, if there is one. Most records complete no key. -/
def emit? (out : Artifacts) : Option CommittedKey → Except ResolutionError Artifacts
  | none => .ok out
  | some key => out.emit key

end Artifacts

/-- The artifacts of the first pass, in the order in which they are flushed. The policy table is not
among them, since the first pass does not write it. -/
def rawArtifacts : List Artifact := [.keyStatus, .edgeCorpus]

/-- The number of blocks that a completed key gives. It agrees with `emit`, which writes a block for
the same keys. -/
def blockCount (key : Option CommittedKey) : Nat :=
  match key with
  | some key => if key.isInteresting then 1 else 0
  | none => 0

/-- The end of the first pass. The last key is written, and then all artifacts are flushed. -/
def Resolver.close (r : Resolver) (blocks : Nat) (out : Artifacts) : PassOutcome FirstPass :=
  let (r, key) := r.finish
  match out.emit? key with
  | .error e => ⟨out, .error e⟩
  | .ok out =>
    ⟨out, (rawArtifacts.forM out.flush).map fun _ => r.firstPass (blocks + blockCount key)⟩

/-- The first pass over the rest of a dump; `blocks` have been written so far. -/
def Resolver.run (r : Resolver) (blocks : Nat) (out : Artifacts) :
    List Item → PassOutcome FirstPass
  | [] => r.close blocks out
  | .error e :: _ => ⟨out, .error e⟩
  | .ok (line, record) :: rest =>
    match r.push record with
    | .error cause => ⟨out, .error (.structural line cause)⟩
    | .ok (r, key) =>
      match out.emit? key with
      | .error e => ⟨out, .error e⟩
      | .ok out => r.run (blocks + blockCount key) out rest

/-- The first pass over a dump. It is `Resolver.run` from an empty state. -/
def resolve (settings : ResolutionSettings) (dump : Source) (out : Artifacts) :
    PassOutcome FirstPass :=
  ({ settings : Resolver }).run 0 out (records dump)

end WebOfTrust
