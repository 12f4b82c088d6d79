import Mathlib.Data.List.Induction
import WebOfTrust.Proofs.Number.Rounding
import WebOfTrust.Proofs.StrongSet.Centrality

/-!
# `WebOfTrust.Proofs.StrongSet.ListedMembers`: a centrality table is about the keys that it lists

A table can list a key more than once, and keys that are none of the graph. Of the rows of one key
the last one stays, as each of them overwrites both centralities of the node. The graph can be any
that is reached by adding nodes and edges and by changing what is known of a key, tables that were
entered before included.

- `relativeCentralityChecked_eq`: the relative centrality has a divisor above zero;
- `enterRows_eq_settledNode`: the last row of a key stays;
- `centrality_of_listed_members`: a table, entered into any graph.
-/

set_option autoImplicit false

namespace WebOfTrust

open Float.Model

/-! ### The divisor -/

/-- A positive number is no zero, also by the comparison of floating-point numbers. `Checked.div`
asks by that comparison. -/
theorem beq_zero_eq_false {x : Float} (h : 0 < x) : (x == 0) = false := by
  have hlt : UnpackedFloat.lt (.zero .positive) x.toModel.unpack = true := of_decide_eq_true h
  show UnpackedFloat.beq x.toModel.unpack (.zero .positive) = false
  -- One case per kind of floating-point number.
  cases hx : x.toModel.unpack with
  | infinity sign => cases sign <;> rfl
  | notANumber => rfl
  | zero sign =>
    rw [hx] at hlt
    cases sign <;> exact absurd hlt (by decide)
  | finite sign m e hm => cases sign <;> rfl

/-- With three nodes or more there are pairs of other nodes, and as many of them as a number can
tell. So the divisor is neither zero nor infinite, and with fewer nodes there is no division.
`floatOfCount_mul_pos` is about the product of the two counts. -/
theorem relativeCentralityChecked_eq {n : Nat} (hn : n < 2 ^ 64) (absolute : Float) :
    relativeCentralityChecked absolute n = .ok (relativeCentrality absolute n) := by
  unfold relativeCentralityChecked relativeCentrality
  split
  · rfl
  next hthree =>
  have hpos := (floatOfCount_mul_pos (a := n - 1) (b := n - 2) (by omega) (by omega) (by omega)
    (by omega)).1
  rw [Checked.sub_of_le (by omega), Checked.sub_of_le (by omega)]
  simp only [bind, Except.bind, Checked.div, beq_zero_eq_false hpos]
  rfl

namespace StrongSetGraph

variable {g : StrongSetGraph}

/-! ### The last row of a key -/

/-- The last row of a key, if the table lists it. It is the one whose centrality remains. -/
def lastRow? (rows : List CentralityRow) (k : KeyId) : Option CentralityRow :=
  (rows.filter (·.keyId = k)).getLast?

/-- A row behind the others is the last one of its key, and leaves those of other keys. -/
theorem lastRow?_concat (rows : List CentralityRow) (row : CentralityRow) (k : KeyId) :
    lastRow? (rows ++ [row]) k = if row.keyId = k then some row else lastRow? rows k := by
  rw [lastRow?, List.filter_append]
  split
  · next h => simp [h]
  · next h => simp [h, lastRow?]

/-- A node with the centrality of a row, in a graph of `n` nodes. -/
def overwrite (n : Nat) (node : StrongSetNode) (row : CentralityRow) : StrongSetNode :=
  { node with
    absoluteCentrality := row.absolute
    relativeCentrality := .ofFloat (relativeCentrality row.absolute.toFloat n) }

/-- A node behind the last row of its key, if there is one. It is `enterRows` in one step. -/
def settledNode (n : Nat) (rows : List CentralityRow) (node : StrongSetNode) : StrongSetNode :=
  match lastRow? rows node.keyId with
  | some row => overwrite n node row
  | none => node

/-- If no row in `after` has the key of `row`, then `row` is the last one of that key. -/
theorem lastRow?_append_cons {before after : List CentralityRow} {row : CentralityRow} {k : KeyId}
    (hrow : row.keyId = k) (hafter : ∀ later ∈ after, later.keyId ≠ k) :
    lastRow? (before ++ row :: after) k = some row := by
  have hnone : after.filter (·.keyId = k) = [] := by simpa using hafter
  rw [lastRow?, List.filter_append, List.filter_cons_of_pos (by simpa using hrow), hnone,
    List.getLast?_concat]

/-- A key that is not listed has no last row, so its node stays as it is. -/
theorem lastRow?_eq_none {rows : List CentralityRow} {k : KeyId}
    (h : ∀ row ∈ rows, row.keyId ≠ k) : lastRow? rows k = none := by
  have hnone : rows.filter (·.keyId = k) = [] := by simpa using h
  rw [lastRow?, hnone]
  rfl

/-- To enter all rows of a key is to enter the last one. Each row sets both centralities, so nothing
of an earlier one is left. The induction is on the rows from behind. -/
theorem enterRows_eq_settledNode (n : Nat) (rows : List CentralityRow) (node : StrongSetNode) :
    enterRows n rows node = settledNode n rows node := by
  induction rows using List.reverseRecOn with
  | nil => rfl
  | append_singleton front row ih =>
    obtain ⟨absolute, relative, hfront⟩ := enterRows_eq n front node
    have hstep : enterRows n (front ++ [row]) node = enterRow n (enterRows n front node) row := by
      rw [enterRows, List.foldl_append]
      rfl
    have hid : (enterRows n front node).keyId = node.keyId := by rw [hfront]
    rw [hstep, settledNode, lastRow?_concat, enterRow, hid]
    by_cases hrow : node.keyId = row.keyId
    · -- Both centralities are overwritten, whatever they were.
      rw [if_pos hrow, if_pos hrow.symm, hfront]
      rfl
    · rw [if_neg hrow, if_neg (Ne.symm hrow), ih]
      rfl

/-! ### Graphs -/

/-- The graphs that calls reach, where what is known of a key may change at any time, but for its
id. Every constructor keeps `WellFormed`. -/
inductive Reachable : StrongSetGraph → Prop
  /-- An analysis begins with an empty graph. -/
  | empty : Reachable {}
  /-- Nodes and edges are added. -/
  | answer {g : StrongSetGraph} (h : Reachable g) (call : Call) : Reachable (g.answer call)
  /-- A node is changed, as a centrality table does it. -/
  | modifyNode {g : StrongSetGraph} (h : Reachable g) (i : Nat) {f : StrongSetNode → StrongSetNode}
      (hf : ∀ node, (f node).keyId = node.keyId) : Reachable (g.modifyNode i f)

/-- A change of one node that leaves its id keeps a graph well-formed. It is `WellFormed.mapNodes`
for a single number. -/
theorem WellFormed.modifyNode (hg : g.WellFormed) (i : Nat) {f : StrongSetNode → StrongSetNode}
    (hf : ∀ node, (f node).keyId = node.keyId) : (g.modifyNode i f).WellFormed where
  index k j := by
    show g.indexOf k = some j ↔ ∃ node, (g.nodes.modify i f)[j]? = some node ∧ node.keyId = k
    rw [hg.index, List.getElem?_modify]
    cases g.nodes[j]? with
    | none => simp
    | some node => by_cases hij : i = j <;> simp [hij, hf]
  neighborhoods := by
    show g.neighborhoods.length = (g.nodes.modify i f).length
    rw [List.length_modify, hg.neighborhoods, size]
  mirrored := hg.mirrored
  all := hg.all

/-- All of these graphs are `WellFormed`, by induction on how they are reached. -/
theorem Reachable.wellFormed (h : g.Reachable) : g.WellFormed := by
  induction h with
  | empty => exact wellFormed_empty
  | answer _ call ih => exact ih.answer call
  | modifyNode _ i hf ih => exact ih.modifyNode i hf

/-- Graphs that are built by `calls` are `Reachable`. The constructor `modify` is not needed for
them. -/
theorem reachable_build (calls : List Call) : (build calls).Reachable :=
  List.foldlRecOn calls answer .empty fun _ h call _ => h.answer call

/-! ### A table -/

/-- What a centrality table makes of the graph `g`, and what it is told. The result `g'` is
described node by node. -/
structure ListedMembers (g : StrongSetGraph) (rows : List CentralityRow) (g' : StrongSetGraph)
    (diagnostics : List Diagnostic) : Prop where
  /-- The last row of a key gives both centralities of its node, and nothing else of it. -/
  listed : ∀ (i : Nat) (node : StrongSetNode) before row after,
    g.nodes[i]? = some node → rows = before ++ row :: after →
    row.keyId = node.keyId → (∀ later ∈ after, later.keyId ≠ node.keyId) →
    g'.nodes[i]? = some { node with
      absoluteCentrality := row.absolute
      relativeCentrality := .ofFloat (relativeCentrality row.absolute.toFloat g.size) }
  /-- A key without a row keeps its node. -/
  unlisted : ∀ (i : Nat) (node : StrongSetNode),
    g.nodes[i]? = some node → (∀ row ∈ rows, row.keyId ≠ node.keyId) → g'.nodes[i]? = some node
  /-- No node is added or lost. -/
  size : g'.size = g.size
  /-- Keys keep their numbers. -/
  index : g'.index = g.index
  /-- No edge changes. -/
  neighborhoods : g'.neighborhoods = g.neighborhoods
  /-- There is one message for each row whose key is that of no node. -/
  messages : diagnostics.map (·.message) =
    (rows.filter fun row => ∀ node ∈ g.nodes, node.keyId ≠ row.keyId).map fun row =>
      "centrality entry for key " ++ row.keyId.text ++ " outside the strong set"

/-- The messages, in terms of the nodes and not of the table of numbers. They come in the order of
the rows, and a repeated stranger is told of again. The induction is on the rows. -/
theorem WellFormed.messages_strangerRow? (hg : g.WellFormed) (rows : List CentralityRow) :
    (rows.filterMap g.strangerRow?).map (·.message) =
      (rows.filter fun row => ∀ node ∈ g.nodes, node.keyId ≠ row.keyId).map fun row =>
        "centrality entry for key " ++ row.keyId.text ++ " outside the strong set" := by
  induction rows with
  | nil => rfl
  | cons row rows ih =>
    rw [List.filterMap_cons, List.filter_cons, strangerRow?]
    by_cases hrow : g.contains row.keyId = true
    · -- A member has a node, so its row gives no message.
      obtain ⟨node, hnode, hk⟩ := List.mem_map.1 (hg.mem_keyIds_iff.2 hrow)
      have hno : ¬ ∀ node ∈ g.nodes, node.keyId ≠ row.keyId := fun hall => hall node hnode hk
      rw [if_pos hrow, if_neg (by simpa using hno)]
      exact ih
    · have hall : ∀ node ∈ g.nodes, node.keyId ≠ row.keyId := fun node hnode hk =>
        hrow (hg.mem_keyIds_iff.1 (List.mem_map.2 ⟨node, hnode, hk⟩))
      rw [if_neg hrow, if_pos (by simpa using hall), List.map_cons, List.map_cons, ih]
      rfl

/-- A table changes the keys that it lists, and tells which of its keys are strangers. To tell the
relative centrality takes no step that can go wrong. The last part compares
`relativeCentralityChecked` with what is entered. -/
theorem centrality_of_listed_members (hg : g.Reachable) (rows : List CentralityRow) :
    g.ListedMembers rows (g.applyCentrality rows).1 (g.applyCentrality rows).2 ∧
      ∀ absolute n, n < 2 ^ 64 →
        relativeCentralityChecked absolute n = .ok (relativeCentrality absolute n) := by
  refine ⟨?_, fun absolute n hn => relativeCentralityChecked_eq hn absolute⟩
  -- Entering all rows of a node is entering its last one.
  have hnodes : ∀ i : Nat, (g.nodes.map (enterRows g.size rows))[i]? =
      g.nodes[i]?.map (settledNode g.size rows) := by
    intro i
    rw [List.getElem?_map, funext (enterRows_eq_settledNode g.size rows)]
  rw [hg.wellFormed.applyCentrality_eq]
  exact {
    listed := by
      rintro i node before row after hnode rfl hrow hafter
      show (g.nodes.map _)[i]? = _
      rw [hnodes, hnode, Option.map_some, settledNode, lastRow?_append_cons hrow hafter]
      rfl
    unlisted := by
      intro i node hnode hrows
      show (g.nodes.map _)[i]? = _
      rw [hnodes, hnode, Option.map_some, settledNode, lastRow?_eq_none hrows]
    size := List.length_map _
    index := rfl
    neighborhoods := rfl
    messages := hg.wellFormed.messages_strangerRow? rows }

/-- A key that is listed twice, two that are not, and a stranger between the rows. The two rows of
`k` differ, so that it shows which one stays. -/
def repeatedRows (k stranger : KeyId) : List CentralityRow :=
  [⟨k, ⟨0x3FF0000000000000⟩⟩, ⟨stranger, ⟨0x4010000000000000⟩⟩, ⟨k, ⟨0x4000000000000000⟩⟩]

/-- Two shortest paths are all that there can be between two other keys. The key with two rows has
the centrality of the second one. So its relative centrality is one. -/
theorem centrality_of_listed_members_repeated :
    let a : KeyId := ⟨"AA", by decide⟩
    let node (k : KeyId) : StrongSetNode := ⟨k, ⟨0⟩, 1, 1, 1, 1, ⟨0⟩, ⟨0⟩, ⟨0⟩⟩
    let g := build [.addNode (node a), .addNode (node ⟨"BB", by decide⟩),
      .addEdge a ⟨"BB", by decide⟩, .addNode (node ⟨"CC", by decide⟩)]
    let rows := repeatedRows a ⟨"DD", by decide⟩
    g.Reachable ∧
      g.ListedMembers rows (g.applyCentrality rows).1 (g.applyCentrality rows).2 ∧
      (g.applyCentrality rows).1.nodes[0]? = some { node a with
        absoluteCentrality := ⟨0x4000000000000000⟩, relativeCentrality := ⟨0x3FF0000000000000⟩ } ∧
      (g.applyCentrality rows).1.nodes[1]? = g.nodes[1]? ∧
      (g.applyCentrality rows).2.map (·.message) =
        ["centrality entry for key DD outside the strong set"] := by
  intro a node g rows
  have hg : g.Reachable := reachable_build _
  exact ⟨hg, (centrality_of_listed_members hg rows).1, by decide +kernel, by decide +kernel,
    by decide +kernel⟩

end StrongSetGraph

end WebOfTrust
