import WebOfTrust.Proofs.StrongSet.Graph
import WebOfTrust.StrongSet.Centrality

/-!
# `WebOfTrust.Proofs.StrongSet.Centrality`: what a centrality table enters into a graph

A row of the table is entered at the number of its key, and no two nodes have one key. So a row goes
through all nodes and changes those with its key, which is one node or none, and a table is the rows
one after the other. Only the two centralities of a node change. Numbers, ids, degrees and
neighbours stay, and with them all that is computed from these.

- `StrongSetGraph.WellFormed.applyCentrality_eq`: the nodes behind a table, and what it is told;
- `StrongSetGraph.enterRows_eq`: what a table changes in a node.
-/

set_option autoImplicit false

namespace WebOfTrust

namespace StrongSetGraph

variable {g : StrongSetGraph}

/-! ### One row -/

/-- A node behind a row of the table, in a graph of `n` nodes. Nodes of other keys are left alone,
so a row can be entered into all nodes at once. -/
def enterRow (n : Nat) (node : StrongSetNode) (row : CentralityRow) : StrongSetNode :=
  if node.keyId = row.keyId then
    { node with
      absoluteCentrality := row.absolute
      relativeCentrality := .ofFloat (relativeCentrality row.absolute.toFloat n) }
  else node

/-- The diagnostic for a row whose key is no node, and `none` for other rows. -/
def strangerRow? (g : StrongSetGraph) (row : CentralityRow) : Option Diagnostic :=
  if g.contains row.keyId then none else some (.strangerCentrality row.keyId)

/-- The key of the node at place `i` is the one whose number is `i`, in either direction. A row is
compared with nodes by id, and looked up by number. -/
theorem WellFormed.keyId_eq_iff (hg : g.WellFormed) {k : KeyId} {i : Nat} {node : StrongSetNode}
    (hnode : g.nodes[i]? = some node) : node.keyId = k ↔ g.indexOf k = some i := by
  rw [hg.index, hnode]
  simp

/-- A row changes the nodes with its key. `applyRow` looks for the number of the key and changes
that node; here the nodes are gone through instead. -/
theorem WellFormed.applyRow_eq (hg : g.WellFormed) (row : CentralityRow) :
    g.applyRow row
      = ({ g with nodes := g.nodes.map fun node => enterRow g.size node row },
          g.strangerRow? row) := by
  rw [applyRow, strangerRow?, contains]
  cases hindex : g.indexOf row.keyId with
  -- No node has the key, so no node changes.
  | none =>
    have hnodes : g.nodes.map (fun node => enterRow g.size node row) = g.nodes := by
      refine List.ext_getElem? fun i => ?_
      rw [List.getElem?_map]
      cases hnode : g.nodes[i]? with
      | none => rfl
      | some node => simp [enterRow, hg.keyId_eq_iff hnode, hindex]
    rw [hnodes]
    rfl
  -- Just the node with this number has the key.
  | some i =>
    have hnodes : (g.setCentrality i row.absolute).nodes
        = g.nodes.map fun node => enterRow g.size node row := by
      refine List.ext_getElem? fun j => ?_
      rw [setCentrality, modifyNode, List.getElem?_modify, List.getElem?_map]
      cases hnode : g.nodes[j]? with
      | none => rfl
      | some node => simp [enterRow, hg.keyId_eq_iff hnode, hindex]
    rw [← hnodes]
    rfl

/-! ### A table -/

/-- A node behind a table, whose rows are entered one after the other by `enterRow`. So a later row
overwrites an earlier one of the same key. -/
def enterRows (n : Nat) (rows : List CentralityRow) (node : StrongSetNode) : StrongSetNode :=
  rows.foldl (enterRow n) node

/-- Of the node nothing changes but its centralities, whatever the rows are. What depends on other
fields is carried over by this. The induction is on the rows. -/
theorem enterRows_eq (n : Nat) (rows : List CentralityRow) (node : StrongSetNode) :
    ∃ absolute relative, enterRows n rows node
      = { node with absoluteCentrality := absolute, relativeCentrality := relative } := by
  induction rows generalizing node with
  | nil => exact ⟨_, _, rfl⟩
  | cons row rows ih =>
    obtain ⟨absolute, relative, hrest⟩ := ih (enterRow n node row)
    refine ⟨absolute, relative, hrest.trans ?_⟩
    rw [enterRow]
    split <;> rfl

/-- The graph behind a change of its nodes that leaves their ids. Numbers and neighbours do not
depend on the rest of a node. The hypothesis `hf` is what `index` needs; the other fields do not
mention nodes. -/
theorem WellFormed.mapNodes (hg : g.WellFormed) {f : StrongSetNode → StrongSetNode}
    (hf : ∀ node, (f node).keyId = node.keyId) :
    WellFormed { g with nodes := g.nodes.map f } where
  index k i := by
    show g.indexOf k = some i ↔ ∃ node, (g.nodes.map f)[i]? = some node ∧ node.keyId = k
    rw [hg.index, List.getElem?_map]
    cases g.nodes[i]? <;> simp [hf]
  neighborhoods := by
    show g.neighborhoods.length = (g.nodes.map f).length
    rw [List.length_map, hg.neighborhoods, size]
  mirrored := hg.mirrored
  all := hg.all

/-- A row leaves the id of a node, whether or not it is for that node. It is the hypothesis of
`WellFormed.mapNodes`. -/
theorem keyId_enterRow (n : Nat) (node : StrongSetNode) (row : CentralityRow) :
    (enterRow n node row).keyId = node.keyId := by
  rw [enterRow]
  split <;> rfl

/-- A table is entered row by row into all nodes, and tells which of its keys are none. The messages
come in the order of the rows. `strangerRow?` picks them. -/
theorem WellFormed.applyCentrality_eq (hg : g.WellFormed) (rows : List CentralityRow) :
    g.applyCentrality rows
      = ({ g with nodes := g.nodes.map (enterRows g.size rows) },
          rows.filterMap g.strangerRow?) := by
  induction rows generalizing g with
  | nil =>
    have hnodes : g.nodes.map (enterRows g.size []) = g.nodes := List.map_id g.nodes
    rw [hnodes]
    rfl
  | cons row rows ih =>
    -- The relative centrality is for a graph of this size, so it has to stay the same.
    have hsize : size { g with nodes := g.nodes.map fun node => enterRow g.size node row }
        = g.size := List.length_map _
    rw [applyCentrality, hg.applyRow_eq]
    simp only
    rw [ih (hg.mapNodes fun node => keyId_enterRow g.size node row), hsize, List.filterMap_cons]
    simp only [List.map_map]
    rw [Prod.mk.injEq]
    refine ⟨rfl, ?_⟩
    cases g.strangerRow? row <;> rfl

end StrongSetGraph

end WebOfTrust
