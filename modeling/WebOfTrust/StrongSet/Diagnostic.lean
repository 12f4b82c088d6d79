import WebOfTrust.KeyId

/-!
# `WebOfTrust.StrongSet.Diagnostic`: files that disagree

An analysis goes on when its files disagree, and its report tells how they do.
-/

set_option autoImplicit false

namespace WebOfTrust

/-- Numbers of edge ends that enter and leave the nodes of the strong set. In a graph both are the
number of edges, by `edgeDegreeTotals_eq`. -/
structure DegreeTotals where
  incoming : Nat := 0
  outgoing : Nat := 0
  deriving DecidableEq, Repr, Inhabited

/-- What an analysis notices about its files. None of it stops the analysis. A report lists them in
the order in which they were told. -/
inductive Diagnostic where
  /-- Rows of the connectivity table whose key has been added to the strong set before. -/
  | repeatedStrongKeys (count : Nat)
  /-- The degrees in the connectivity table do not belong to one graph. -/
  | unbalancedTable (table : DegreeTotals)
  /-- A row of the centrality table is about a key outside the strong set. -/
  | strangerCentrality (key : KeyId)
  /-- Keys of the corpus that the connectivity table does not have. -/
  | keysOutsideTable (count : Nat)
  /-- The degrees in the connectivity table are not those of the corpus. -/
  | totalsDiffer (table corpus : DegreeTotals)
  /-- Nodes whose clustering coefficient has no positive denominator. -/
  | degenerateCoefficients (count : Nat)
  deriving DecidableEq, Repr

/-- Both totals, as messages give them. `Diagnostic.message` uses it for both sides of a
comparison. -/
def DegreeTotals.text (t : DegreeTotals) : String :=
  "in " ++ toString t.incoming ++ " out " ++ toString t.outgoing

/-- The message of a diagnostic, as the report lists it. It carries the numbers that were
compared. -/
def Diagnostic.message : Diagnostic → String
  | repeatedStrongKeys count =>
    toString count ++
      " repeated strong-set keys in the connectivity table; first occurrence kept"
  | unbalancedTable table =>
    "connectivity table strong-set degree totals differ: " ++ table.text
  | strangerCentrality key =>
    "centrality entry for key " ++ key.text ++ " outside the strong set"
  | keysOutsideTable count =>
    toString count ++ " keys in the edge corpus are absent from the connectivity table"
  | totalsDiffer table corpus =>
    "strong-set degree totals differ between the connectivity table (" ++ table.text ++
      ") and the edge corpus (" ++ corpus.text ++ ")"
  | degenerateCoefficients count =>
    toString count ++
      " strong-set keys have a non-positive clustering denominator; coefficient set to 0"

end WebOfTrust
