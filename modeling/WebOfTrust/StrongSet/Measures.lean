import WebOfTrust.Number.Decimal
import WebOfTrust.StrongSet.AnalysisError
import WebOfTrust.Text.Blank
import WebOfTrust.Text.Split

/-!
# `WebOfTrust.StrongSet.Measures`: measures of keys, computed elsewhere

Distances, degrees and centralities of keys come in two tables, one row per key, with fields between
semicolons:

    <key id>;<mean distance>;<in>;<out>;<cross>;<in>;<out>;<cross>;<eccentricity>;<strong>
    <key id>;<centrality>

The second three degrees of a connectivity row count edges within the strong set. Further fields
are ignored, and so are blanks around a row and around all fields but the key id.
-/

set_option autoImplicit false

namespace WebOfTrust

open Text

/-- A row of the connectivity table. `ConnectivityRow.node` makes a node of it. -/
structure ConnectivityRow where
  keyId : KeyId
  meanDistance : Binary64
  inDegree : UInt32
  outDegree : UInt32
  crossDegree : UInt32
  strongInDegree : UInt32
  strongOutDegree : UInt32
  strongCrossDegree : UInt32
  eccentricity : UInt32
  /-- The key belongs to the strong set. -/
  isStrong : Bool
  deriving DecidableEq, Repr

/-- A row of the centrality table. The relative centrality is not in the table. -/
structure CentralityRow where
  keyId : KeyId
  absolute : Binary64
  deriving DecidableEq, Repr

namespace MeasureTable

/-- The fields of a row, of which there have to be enough. Further fields are allowed, and
ignored. -/
def splitRow (expected : Nat) (row : String) : Except RowFault (List String) :=
  let fields := (splitOn ';' (trim row.toList)).map String.ofList
  if fields.length < expected then .error (.fieldCount fields.length expected) else .ok fields

/-- Reads the first field, which is a key id in both tables. The error is
`RowFault.invalidKeyId`. -/
def keyIdField (fields : List String) : Except RowFault KeyId :=
  (KeyId.parse (fields.getD 0 "")).mapError .invalidKeyId

/-- Reads the field with the given index. Blanks around the text are no part of it, and the error is
`unreadable`. -/
def readField {α : Type} (read : String → Option α) (fields : List String) (index : Nat) :
    Except RowFault α :=
  let text := fields.getD index ""
  match read (String.ofList (trim text.toList)) with
  | some a => .ok a
  | none => .error (.unreadable index text)

/-- The rows that `parse` reads from the lines behind the first `count`. -/
def rowsFrom {α : Type} (table : MeasureTable) (parse : String → Except RowFault α) (count : Nat) :
    List (Except IoError String) → Except AnalysisError (List α)
  | [] => .ok []
  | .error e :: _ => .error (.reading table e)
  | .ok line :: rest =>
    if trim line.toList = [] then rowsFrom table parse (count + 1) rest
    else
      match parse line with
      | .ok row => (row :: ·) <$> rowsFrom table parse (count + 1) rest
      | .error cause => .error (.malformed table (count + 1) cause)

end MeasureTable

open MeasureTable

/-- Reads a row of the connectivity table. Fields are read from the first to the last, and the first
one that is refused is told. A row has at least ten fields. -/
def ConnectivityRow.parse (row : String) : Except RowFault ConnectivityRow := do
  let fields ← splitRow 10 row
  let keyId ← keyIdField fields
  let meanDistance ← readField Number.readBinary64 fields 1
  let inDegree ← readField readWord32 fields 2
  let outDegree ← readField readWord32 fields 3
  let crossDegree ← readField readWord32 fields 4
  let strongInDegree ← readField readWord32 fields 5
  let strongOutDegree ← readField readWord32 fields 6
  let strongCrossDegree ← readField readWord32 fields 7
  let eccentricity ← readField readWord32 fields 8
  let strong ← readField readByte fields 9
  return {
    keyId, meanDistance, inDegree, outDegree, crossDegree, strongInDegree, strongOutDegree
    strongCrossDegree, eccentricity
    isStrong := strong = 1 }

/-- Reads a row of the centrality table. A row has at least two fields. -/
def CentralityRow.parse (row : String) : Except RowFault CentralityRow := do
  let fields ← splitRow 2 row
  let keyId ← keyIdField fields
  let absolute ← readField Number.readBinary64 fields 1
  return { keyId, absolute }

/-- Reads a connectivity table, up to the first row that is refused. `rowsFrom` counts the lines. -/
def readConnectivity (s : Source) : Except AnalysisError (List ConnectivityRow) :=
  rowsFrom .connectivity ConnectivityRow.parse 0 s.textLines

/-- Reads a centrality table, up to the first row that is refused. It differs from
`readConnectivity` in its rows only. -/
def readCentrality (s : Source) : Except AnalysisError (List CentralityRow) :=
  rowsFrom .centrality CentralityRow.parse 0 s.textLines

end WebOfTrust
