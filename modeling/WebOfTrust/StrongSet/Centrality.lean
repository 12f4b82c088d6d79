import WebOfTrust.Number.Checked
import WebOfTrust.StrongSet.Description
import WebOfTrust.StrongSet.Diagnostic
import WebOfTrust.StrongSet.Graph

/-!
# `WebOfTrust.StrongSet.Centrality`: how the strong set leans on single keys

The centrality of a key counts shortest paths through it. Relative to their greatest possible
number it lies between zero and one, and the centralization of the graph tells how far the other
keys stay behind the most central one (Freeman).
-/

set_option autoImplicit false

namespace WebOfTrust

/-- A centrality relative to the number of ordered pairs of other nodes, of which a graph of fewer
than three nodes has none. `floatOfCount` converts the two factors. -/
def relativeCentrality (absolute : Float) (n : Nat) : Float :=
  if n < 3 then 0 else absolute / (floatOfCount (n - 1) * floatOfCount (n - 2))

/-- The relative centrality, with each step checked. `relativeCentralityChecked_eq` compares
both. -/
def relativeCentralityChecked (absolute : Float) (n : Nat) : Except Fault Float :=
  if n < 3 then return 0
  else do
    let others ← Checked.sub n 1
    let othersOfOther ← Checked.sub n 2
    Checked.div absolute (floatOfCount others * floatOfCount othersOfOther)

/-- Enters the centrality of a row. The relative one is computed from it and from the size of the
graph. -/
def StrongSetGraph.setCentrality (g : StrongSetGraph) (i : Nat) (absolute : Binary64) :
    StrongSetGraph :=
  g.modifyNode i fun node =>
    { node with
      absoluteCentrality := absolute
      relativeCentrality := .ofFloat (relativeCentrality absolute.toFloat g.size) }

/-- Enters a row of the centrality table, or tells that its key is no node. `WellFormed.applyRow_eq`
describes it node by node. -/
def StrongSetGraph.applyRow (g : StrongSetGraph) (row : CentralityRow) :
    StrongSetGraph × Option Diagnostic :=
  match g.indexOf row.keyId with
  | some i => (g.setCentrality i row.absolute, none)
  | none => (g, some (.strangerCentrality row.keyId))

/-- Enters a centrality table. The diagnostics are in the order of its rows. A later row of a key
overwrites an earlier one. -/
def StrongSetGraph.applyCentrality (g : StrongSetGraph) :
    List CentralityRow → StrongSetGraph × List Diagnostic
  | [] => (g, [])
  | row :: rest =>
    let (g, diagnostic) := g.applyRow row
    let (g, diagnostics) := applyCentrality g rest
    (g, diagnostic.toList ++ diagnostics)

/-- The centralization of a graph. Both numbers are zero where there are too few nodes. -/
structure Centralization where
  greatest : Float := 0
  index : Float := 0
  deriving Inhabited

/-- The greater of two numbers; a number is greater than a NaN, and of two equal ones, which may be
zeros of different sign, the second is taken. It is the fold step of `centralization`. -/
def greaterOf (x y : Float) : Float := if x > y || y.isNaN then x else y

/-- The centralization of a graph, which one of fewer than three nodes does not have. `greaterOf`
finds the greatest relative centrality. -/
def StrongSetGraph.centralization (g : StrongSetGraph) : Centralization :=
  if g.size < 3 then {}
  else
    let relative := g.nodes.map fun node => node.relativeCentrality.toFloat
    let greatest := relative.foldl greaterOf (Float.ofBits 0xFFF0000000000000)
    { greatest
      index := floatSum (relative.map (greatest - ·)) / floatOfCount (g.size - 1) }

end WebOfTrust
