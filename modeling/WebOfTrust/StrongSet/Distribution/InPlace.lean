import WebOfTrust.Number.Checked
import WebOfTrust.StrongSet.Distribution

/-!
# `WebOfTrust.StrongSet.Distribution.InPlace`: distributions that are counted row by row

A distribution is a table of rows that are all there before the first node is counted. A node is
counted by the number of its row, for the degrees in three rows at once, and what is left of the
nodes is told by going through the rows and taking off what stands in them. Picking a row and taking
off a count can go wrong, so both steps are checked here.

- `degreeDistributionInPlace`: rows from zero to the greatest of all degrees;
- `eccentricityDistributionInPlace`: rows from the least eccentricity to the greatest.
-/

set_option autoImplicit false

namespace WebOfTrust

/-! ### Degrees -/

/-- What a degree counts. Lemmas that hold of all three degrees are stated for a `kind`. -/
inductive DegreeKind where
  | incoming
  | outgoing
  | cross
  deriving DecidableEq, Repr

/-- A degree of a node. It picks the field by `kind`. -/
def StrongSetNode.degree (node : StrongSetNode) : DegreeKind → Nat
  | .incoming => node.inDegree.toNat
  | .outgoing => node.outDegree.toNat
  | .cross => node.crossDegree.toNat

/-- The greatest degree of a node. A row for it is enough for all three. -/
def StrongSetNode.greatestDegree (node : StrongSetNode) : Nat :=
  max (max node.inDegree.toNat node.outDegree.toNat) node.crossDegree.toNat

/-- A row before any node is counted. The loop starts with such rows up to the greatest degree. -/
def DegreeRow.blank (degree : Nat) : DegreeRow := ⟨degree, ⟨0, 0⟩, ⟨0, 0⟩, ⟨0, 0⟩⟩

/-- One node more of a degree. `atLeast` is filled in later. -/
def DegreeCount.bump (c : DegreeCount) : DegreeCount := { c with exact := c.exact + 1 }

/-- One node more in a row. Only the count of that `kind` changes. -/
def DegreeRow.bump (row : DegreeRow) : DegreeKind → DegreeRow
  | .incoming => { row with incoming := row.incoming.bump }
  | .outgoing => { row with outgoing := row.outgoing.bump }
  | .cross => { row with cross := row.cross.bump }

/-- Counts a node in the row of one of its degrees. `Checked.modify` fails if there is no such
row. -/
def countDegree (rows : List DegreeRow) (node : StrongSetNode) (kind : DegreeKind) :
    Except Fault (List DegreeRow) :=
  Checked.modify rows (node.degree kind) (·.bump kind)

/-- Counts a node in the rows of all its degrees. A node is counted three times, therefore, once for
each `kind`. -/
def countDegrees (rows : List DegreeRow) (node : StrongSetNode) :
    Except Fault (List DegreeRow) := do
  let rows ← countDegree rows node .incoming
  let rows ← countDegree rows node .outgoing
  countDegree rows node .cross

/-- The numbers of nodes that are left, for the three degrees. `fillAtLeast` passes them from row to
row. -/
structure NodesLeft where
  incoming : Nat
  outgoing : Nat
  cross : Nat

/-- A row with the nodes that are left at it. The exact counts stay. -/
def DegreeRow.withLeft (row : DegreeRow) (left : NodesLeft) : DegreeRow :=
  { row with
    incoming := { row.incoming with atLeast := left.incoming }
    outgoing := { row.outgoing with atLeast := left.outgoing }
    cross := { row.cross with atLeast := left.cross } }

/-- What is left behind a row. `Checked.sub` takes the nodes of the row off. -/
def NodesLeft.behind (left : NodesLeft) (row : DegreeRow) : Except Fault NodesLeft := do
  let incoming ← Checked.sub left.incoming row.incoming.exact
  let outgoing ← Checked.sub left.outgoing row.outgoing.exact
  let cross ← Checked.sub left.cross row.cross.exact
  return ⟨incoming, outgoing, cross⟩

/-- Tells each row what is left at it. It goes from the least degree to the greatest. -/
def fillAtLeast (left : NodesLeft) : List DegreeRow → Except Fault (List DegreeRow)
  | [] => return []
  | row :: rest => do
    let behind ← left.behind row
    return row.withLeft left :: (← fillAtLeast behind rest)

/-- The degree distribution, with each step checked. `distributions_exact` says that no check
fails. -/
def degreeDistributionInPlace (nodes : List StrongSetNode) : Except Fault (List DegreeRow) :=
  match (nodes.map (·.greatestDegree)).max? with
  | none => return []
  | some greatest => do
    let rows ← nodes.foldlM countDegrees ((List.range (greatest + 1)).map DegreeRow.blank)
    fillAtLeast ⟨nodes.length, nodes.length, nodes.length⟩ rows

/-! ### Eccentricities -/

/-- Counts a node in the row of its eccentricity, where the first row is that of `least`. -/
def countEccentricity (least : Nat) (rows : List EccentricityRow) (node : StrongSetNode) :
    Except Fault (List EccentricityRow) := do
  let i ← Checked.sub node.eccentricity.toNat least
  Checked.modify rows i fun r => { r with count := r.count + 1 }

/-- The eccentricity distribution, with each step checked. Rows are picked by the difference to the
least value. -/
def eccentricityDistributionInPlace (nodes : List StrongSetNode) :
    Except Fault (List EccentricityRow) :=
  let values := nodes.map (·.eccentricity.toNat)
  match values.min?, values.max? with
  | some least, some greatest =>
    nodes.foldlM (countEccentricity least)
      ((List.range' least (greatest + 1 - least)).map fun v => ⟨v, 0⟩)
  | _, _ => return []

end WebOfTrust
