import WebOfTrust.Algorithm
import WebOfTrust.ResolutionError
import WebOfTrust.Text.Blank
import WebOfTrust.Text.Split

/-!
# `WebOfTrust.StatusTable`: the key-status table

The table has one line per key, with its fields between semicolons:

    <status>;<key id>;<algorithm>;<bits>;<created>;<expires>;<version>;<valid user ids>

`StatusLine.render` writes a line, `StatusLine.parse` reads one, and `StatusTable.lines` reads a
table, in which blank lines carry nothing.
-/

set_option autoImplicit false

namespace WebOfTrust

open Text

/-- A line of the key-status table: a key with its status, the values of its `pub` record, and the
number of its valid user ids. -/
structure StatusLine where
  status : KeyStatus
  keyId : KeyId
  algorithm : PublicKeyAlgorithm
  bits : UInt32
  created : String
  expires : String
  version : UInt8
  validIdentities : UInt64
  deriving DecidableEq, Repr, Inhabited

namespace StatusLine

/-- The fields of a line. `StatusLine.parse` takes them apart again, in the same order. -/
def fields (l : StatusLine) : List String :=
  [l.status.code, l.keyId.text, toString l.algorithm.toByte.toNat, toString l.bits.toNat,
    l.created, l.expires, toString l.version.toNat, toString l.validIdentities.toNat]

/-- The text of a line. `ofFields` puts semicolons between them, and does not look for semicolons in
them. -/
def render (l : StatusLine) : String := ofFields ';' l.fields

/-- A line and its end, in the pieces in which it is written. `Artifacts.writeStatus` hands them
on. -/
def pieces (l : StatusLine) : List String := interleave ';' l.fields ++ ["\n"]

/-- The pieces make up the line and its end. Lemmas are about `StatusLine.render`. -/
theorem join_pieces (l : StatusLine) : String.join l.pieces = l.render ++ "\n" := by
  simp [pieces, render, join_interleave]

/-- A 64-bit number in the field with the given index. The error is a `notANumber` with that
index. -/
def numberField (index : Nat) (text : String) : Except Malformation Nat :=
  match readNumber 10 UInt64.size text.toList with
  | some n => .ok n
  | none => .error (.notANumber .status index text)

/-- A number that has to stay below `limit`. -/
def narrow (limit index n : Nat) : Except Malformation Nat :=
  if n < limit then .ok n else .error (.outOfRange .status index n)

/-- Reads a line; blanks at its end are no part of it. All numbers but the last are looked at before
the status and the key id, their ranges after them. The order matters for the error of a line with
several faults. -/
def parse (line : String) : Except Malformation StatusLine :=
  match (splitOn ';' (trimEnd line.toList)).map String.ofList with
  | [status, keyId, algorithm, bits, created, expires, version, identities] => do
    -- That these are numbers comes first.
    let algorithm ← numberField 2 algorithm
    let bits ← numberField 3 bits
    let version ← numberField 6 version
    let status ← (KeyStatus.ofCode status).mapError .invalidStatus
    let keyId ← (KeyId.parse keyId).mapError .invalidKeyId
    -- That they are in range comes after the names.
    let algorithm ← narrow UInt8.size 2 algorithm
    let bits ← narrow UInt32.size 3 bits
    let version ← narrow UInt8.size 6 version
    let identities ← numberField 7 identities
    return {
      status, keyId, created, expires
      algorithm := PublicKeyAlgorithm.ofByte (UInt8.ofNat algorithm)
      bits := UInt32.ofNat bits
      version := UInt8.ofNat version
      validIdentities := UInt64.ofNat identities }
  | fields => .error (.fieldCount .status fields.length 8)

end StatusLine

namespace StatusTable

/-- The stage that a reader names when its stream fails. `ResolutionError.io` carries it. -/
def readingStage : String := "reading key-status table"

/-- The lines of a table behind its first `count`. -/
def linesFrom (count : Nat) :
    List (Except IoError String) → List (Except ResolutionError StatusLine)
  | [] => []
  | .error e :: rest => .error (.io readingStage e) :: linesFrom (count + 1) rest
  | .ok text :: rest =>
    if trim text.toList = [] then linesFrom (count + 1) rest
    else (StatusLine.parse text).mapError (.malformed (count + 1)) :: linesFrom (count + 1) rest

/-- The lines of a table, with an error in place of each line that is refused. `linesFrom` counts
them from one. -/
def lines (table : Source) : List (Except ResolutionError StatusLine) :=
  linesFrom 0 table.textLines

end StatusTable

end WebOfTrust
