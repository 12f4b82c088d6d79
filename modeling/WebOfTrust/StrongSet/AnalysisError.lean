import WebOfTrust.ResolutionError

/-!
# `WebOfTrust.StrongSet.AnalysisError`: why an analysis stops
-/

set_option autoImplicit false

namespace WebOfTrust

/-- The tables of measures, which other programs compute. Errors name one by `MeasureTable.name`. -/
inductive MeasureTable where
  | connectivity
  | centrality
  deriving DecidableEq, Repr

/-- The name of a table, as messages give it. It stands in front of the message. -/
def MeasureTable.name : MeasureTable → String
  | connectivity => "connectivity table"
  | centrality => "centrality table"

/-- Why a row of such a table cannot be read. Fields count from zero. `AnalysisError.malformed` adds
table and line. -/
inductive RowFault where
  | fieldCount (found expected : Nat)
  | unreadable (index : Nat) (text : String)
  | invalidKeyId (e : InvalidKeyId)
  deriving DecidableEq, Repr

/-- The message of a row that cannot be read. The text of the field is quoted. -/
def RowFault.message : RowFault → String
  | fieldCount found expected => toString found ++ " fields, expected " ++ toString expected
  | unreadable index text => "field " ++ toString index ++ ": cannot parse " ++ Text.quoted text
  | invalidKeyId e => e.message

/-- Why an analysis stops. Lines count from one. A `ResolutionError` of a corpus or of a key-status
table is passed on as it is. -/
inductive AnalysisError where
  /-- A file cannot be opened or written. -/
  | file (path : String) (error : IoError)
  /-- Reading a table fails. -/
  | reading (table : MeasureTable) (error : IoError)
  | malformed (table : MeasureTable) (line : Nat) (cause : RowFault)
  /-- The corpus or the key-status table is refused. -/
  | resolution (error : ResolutionError)
  /-- Writing the report fails. -/
  | report (error : IoError)
  deriving DecidableEq, Repr

/-- The message of an error: its file, table or stage, and its cause. What is behind it is told
apart, by `AnalysisError.causes`. -/
def AnalysisError.message : AnalysisError → String
  | file path error => path ++ ": I/O error: " ++ error.message
  | reading table error => table.name ++ ": read error: " ++ error.message
  | malformed table line cause =>
    table.name ++ " line " ++ toString line ++ ": malformed record: " ++ cause.message
  | resolution error => error.message
  | report error => "report serialization failed: " ++ error.message

end WebOfTrust
