import Mathlib.Data.Finset.Card
import WebOfTrust.Proofs.Table
import WebOfTrust.StrongSet.Graph

/-!
# `WebOfTrust.Proofs.StrongSet.Graph`: what the calls that build a graph leave

A graph is built by two kinds of calls, in any order and with any repetitions. A call is refused if
its key has a node already, or if one of its keys has none, and then changes nothing. What is read
off a graph are sets of node numbers, three of them at each node. The same edge is entered into four
of these sets, two at each of its ends, and a well-formed graph is one where they agree.

- `StrongSetGraph.hasEdge_addEdge`: the edges behind a call;
- `StrongSetGraph.wellFormed_build`: every graph that is built is well-formed;
- `StrongSetGraph.loopless_build`: where no key signs itself, no node has an edge to itself.
-/

set_option autoImplicit false

namespace WebOfTrust

/-! ### Sets of numbers -/

namespace KeySet

variable {α : Type} [Ord α] [DecidableEq α]

/-- The members of a set, without their order. Sums and cardinalities of `Finset` are used through
it. -/
def members (s : KeySet α) : Finset α := s.keys.toFinset

variable [Std.LawfulEqOrd α]

/-- A set and its `members` have the same elements. -/
@[simp] theorem mem_members {s : KeySet α} {k : α} : k ∈ s.members ↔ k ∈ s := by
  rw [members, List.mem_toFinset, Table.mem_keys_iff]

/-- `members` has as many elements as the set has entries, since no key is twice in a table.
Cardinalities of `Finset`s are read as sizes by this. -/
theorem card_members (s : KeySet α) : s.members.card = s.size := by
  rw [members, List.toFinset_card_of_nodup s.nodup_keys, Table.keys, List.length_map, Table.size]

end KeySet

namespace Neighbors

variable {n : Neighbors} {j : Nat}

/-- There are two directions, and each of them counts once in `weight`. It is where the factor two
in the bounds of the numerator comes from. -/
theorem weight_le_two (n : Neighbors) (j : Nat) : n.weight j ≤ 2 := by
  rw [weight]
  split <;> split <;> decide

/-- The weight is zero exactly for a node that is in neither of the sets `outgoing` and
`incoming`. -/
theorem weight_eq_zero_iff : n.weight j = 0 ↔ ¬ (j ∈ n.outgoing ∨ j ∈ n.incoming) := by
  rw [weight]
  split <;> split <;> simp_all

/-- The weight is two exactly for a node that is in both of the sets `outgoing` and `incoming`. -/
theorem weight_eq_two_iff : n.weight j = 2 ↔ j ∈ n.outgoing ∧ j ∈ n.incoming := by
  rw [weight]
  split <;> split <;> simp_all

end Neighbors

namespace StrongSetGraph

variable {g : StrongSetGraph}

/-! ### Calls -/

/-- What is asked of a graph while it is built: `addNode` with a node, or `addEdge` with two ids.
The two calls may come in any order, and any number of times. -/
inductive Call where
  | addNode (node : StrongSetNode)
  | addEdge (signer signee : KeyId)
  deriving DecidableEq

/-- The graph behind a call. What the call returns is left out; `granted` says it where it is
needed. -/
def answer (g : StrongSetGraph) : Call → StrongSetGraph
  | .addNode node => (g.addNode node).1
  | .addEdge signer signee => (g.addEdge signer signee).1

/-- The graph that `calls` build, out of an empty one. Properties of it are proved by a step for
`answer` and an induction on the calls. -/
def build (calls : List Call) : StrongSetGraph := calls.foldl answer {}

/-! ### Edges -/

/-- Whether the key of the node `i` signed that of the node `j`. -/
def HasEdge (g : StrongSetGraph) (i j : Nat) : Prop := j ∈ (g.neighbors i).outgoing

/-- The nodes are numbered by their ids, there are neighbours for each of them, an edge is seen from
both of its ends, and the set of all neighbours is that of both directions. Every call keeps this.
`WellFormed.answer` is the step, and `wellFormed_build` the induction. -/
structure WellFormed (g : StrongSetGraph) : Prop where
  /-- A key has the number of its node, and no key but those of nodes has one. -/
  index : ∀ k i, g.indexOf k = some i ↔ ∃ node, g.nodes[i]? = some node ∧ node.keyId = k
  /-- Nodes and neighborhoods are equally many. -/
  neighborhoods : g.neighborhoods.length = g.size
  /-- An edge is entered at both ends. -/
  mirrored : ∀ i j, i ∈ (g.neighbors j).incoming ↔ g.HasEdge i j
  /-- The third set of a node is the union of the other two. -/
  all : ∀ i j, j ∈ (g.neighbors i).all ↔ j ∈ (g.neighbors i).outgoing ∨ j ∈ (g.neighbors i).incoming

/-- The number of a key is within the bounds of `neighborhoods`, so an edge that is entered there is
not lost. `connect` itself checks nothing. -/
theorem WellFormed.lt_of_indexOf (hg : g.WellFormed) {k : KeyId} {i : Nat}
    (h : g.indexOf k = some i) : i < g.neighborhoods.length := by
  obtain ⟨node, hnode, -⟩ := (hg.index k i).1 h
  rw [hg.neighborhoods, size]
  exact (List.getElem?_eq_some_iff.1 hnode).1

/-- Two keys do not share a node, so different keys have edges of their own. It follows from the
field `index`, as a node has one id. -/
theorem WellFormed.indexOf_inj (hg : g.WellFormed) {k k' : KeyId} {i : Nat}
    (h : g.indexOf k = some i) (h' : g.indexOf k' = some i) : k = k' := by
  obtain ⟨node, hnode, rfl⟩ := (hg.index k i).1 h
  obtain ⟨node', hnode', rfl⟩ := (hg.index k' i).1 h'
  rw [hnode] at hnode'
  rw [Option.some.inj hnode']

/-- An edge is entered at its two ends, at each of them in two sets. Where both ends are one node,
all three sets change there. The three lemmas below read one set each out of it. -/
theorem neighbors_connect {source target : Nat} (hsource : source < g.neighborhoods.length)
    (htarget : target < g.neighborhoods.length) (i : Nat) :
    (g.connect source target).neighbors i =
      { incoming := if i = target then (g.neighbors i).incoming.add source
          else (g.neighbors i).incoming
        outgoing := if i = source then (g.neighbors i).outgoing.add target
          else (g.neighbors i).outgoing
        all :=
          let heard := if i = target then (g.neighbors i).all.add source else (g.neighbors i).all
          if i = source then heard.add target else heard } := by
  simp only [connect, neighbors, List.getD_eq_getElem?_getD, List.getElem?_modify]
  cases hi : g.neighborhoods[i]? with
  | none =>
    -- There is no node `i`, so it is no end of the edge.
    have hle := List.getElem?_eq_none_iff.1 hi
    have hs : i ≠ source := by omega
    have ht : i ≠ target := by omega
    simp [hs, ht]
  | some n =>
    simp only [Option.map_eq_map, Option.map_some, Option.getD_some, eq_comm (b := i)]
    split <;> split <;> rfl

/-- After `connect`, the edges are the old ones and that from `source` to `target`. The bounds are
needed, since an update outside of a list does nothing. -/
theorem hasEdge_connect {source target : Nat} (hsource : source < g.neighborhoods.length)
    (htarget : target < g.neighborhoods.length) {i j : Nat} :
    (g.connect source target).HasEdge i j ↔ i = source ∧ j = target ∨ g.HasEdge i j := by
  rw [HasEdge, HasEdge, neighbors_connect hsource htarget]
  by_cases hi : i = source <;> simp [hi, KeySet.mem_add]

/-- The same as `hasEdge_connect`, from the target: `incoming` has the new source and what it had
before. -/
theorem mem_incoming_connect {source target : Nat} (hsource : source < g.neighborhoods.length)
    (htarget : target < g.neighborhoods.length) {i j : Nat} :
    i ∈ ((g.connect source target).neighbors j).incoming ↔
      i = source ∧ j = target ∨ i ∈ (g.neighbors j).incoming := by
  rw [neighbors_connect hsource htarget]
  by_cases hj : j = target <;> simp [hj, KeySet.mem_add]

/-- The set `all` has the other end, at either of the two ends of the new edge. -/
theorem mem_all_connect {source target : Nat} (hsource : source < g.neighborhoods.length)
    (htarget : target < g.neighborhoods.length) {i j : Nat} :
    j ∈ ((g.connect source target).neighbors i).all ↔
      i = source ∧ j = target ∨ i = target ∧ j = source ∨ j ∈ (g.neighbors i).all := by
  rw [neighbors_connect hsource htarget]
  -- A loop has both of its ends at one node.
  show j ∈ (if i = source then KeySet.add _ target else _) ↔ _
  split <;> split <;> simp_all [KeySet.mem_add]

/-- After `addEdge`, the edges are the old ones and that between the nodes of `signer` and `signee`,
if both have one. Otherwise the call has changed nothing. -/
theorem hasEdge_addEdge (hg : g.WellFormed) (signer signee : KeyId) {i j : Nat} :
    (g.addEdge signer signee).1.HasEdge i j ↔
      g.indexOf signer = some i ∧ g.indexOf signee = some j ∨ g.HasEdge i j := by
  rw [addEdge]
  split
  · next source target hsource htarget =>
    rw [hasEdge_connect (hg.lt_of_indexOf hsource) (hg.lt_of_indexOf htarget), hsource, htarget]
    simp [eq_comm]
  · next hnone =>
    refine (or_iff_right ?_).symm
    rintro ⟨hi, hj⟩
    exact hnone i j hi hj

/-- A call of `addNode` leaves the `neighbors` of every number as they are: a new node has none, and
a number without a node had none before. -/
theorem neighbors_addNode (g : StrongSetGraph) (node : StrongSetNode) (i : Nat) :
    (g.addNode node).1.neighbors i = g.neighbors i := by
  rw [addNode]
  split
  · rfl
  · simp only [neighbors, List.getD_eq_getElem?_getD, List.getElem?_append]
    split
    · rfl
    · next hlt =>
      rw [List.getElem?_eq_none (Nat.le_of_not_lt hlt)]
      cases i - g.neighborhoods.length <;> rfl

/-! ### Well-formed graphs -/

/-- A graph without nodes is `WellFormed`. Every induction on calls starts here. -/
theorem wellFormed_empty : WellFormed {} where
  index k i := by simp [indexOf]
  neighborhoods := rfl
  mirrored i j := by
    have hempty : ({} : StrongSetGraph).neighbors = fun _ => {} := rfl
    simp [HasEdge, hempty]
  all i j := by
    have hempty : ({} : StrongSetGraph).neighbors = fun _ => {} := rfl
    simp [hempty]

/-- The elements of a longer list are the old ones and one behind them. New nodes are numbered in
this way. `WellFormed.addNode` uses it for the field `index`. -/
theorem getElem?_concat_eq_some_iff {α : Type} {as : List α} {a b : α} {i : Nat} :
    (as ++ [a])[i]? = some b ↔ as[i]? = some b ∨ i = as.length ∧ a = b := by
  rcases Nat.lt_trichotomy i as.length with hi | rfl | hi
  · simp [List.getElem?_append_left hi, Nat.ne_of_lt hi]
  · simp
  · rw [List.getElem?_eq_none (by simp; omega), List.getElem?_eq_none (Nat.le_of_lt hi)]
    simp [Nat.ne_of_gt hi]

/-- A node more keeps a graph well-formed. If the key has a node already, the graph is the same.
`addNode` looks the id up before it adds anything. -/
theorem WellFormed.addNode (hg : g.WellFormed) (node : StrongSetNode) :
    (g.addNode node).1.WellFormed := by
  have hmirrored : ∀ i j, i ∈ ((g.addNode node).1.neighbors j).incoming ↔
      (g.addNode node).1.HasEdge i j := fun i j => by
    rw [HasEdge, neighbors_addNode, neighbors_addNode]
    exact hg.mirrored i j
  have hall : ∀ i j, j ∈ ((g.addNode node).1.neighbors i).all ↔
      j ∈ ((g.addNode node).1.neighbors i).outgoing ∨
        j ∈ ((g.addNode node).1.neighbors i).incoming := fun i j => by
    rw [neighbors_addNode]
    exact hg.all i j
  rw [StrongSetGraph.addNode] at hmirrored hall ⊢
  split at hmirrored
  · next hold => rwa [if_pos hold]
  next hnew =>
  rw [if_neg hnew] at hall ⊢
  rw [contains, Option.not_isSome_iff_eq_none] at hnew
  refine ⟨fun k i => ?_, by simp [size, hg.neighborhoods], hmirrored, hall⟩
  show (g.index.insert node.keyId g.size).find? k = some i ↔
    ∃ n, (g.nodes ++ [node])[i]? = some n ∧ n.keyId = k
  rw [Table.find?_insert]
  simp only [getElem?_concat_eq_some_iff, or_and_right, exists_or]
  have hindex := hg.index k i
  rw [indexOf] at hindex
  rw [← hindex]
  by_cases hk : k = node.keyId
  · -- The new number is the number of the new node, as no old node has its id.
    rw [if_pos hk, hk, show g.index.find? node.keyId = none from hnew]
    simp [size, eq_comm]
  · rw [if_neg hk]
    simp [Ne.symm hk]

/-- A call of `addEdge` keeps a graph well-formed. Each field is one of the three lemmas on
`connect`, and without both nodes the graph is the same. -/
theorem WellFormed.addEdge (hg : g.WellFormed) (signer signee : KeyId) :
    (g.addEdge signer signee).1.WellFormed := by
  rw [StrongSetGraph.addEdge]
  split
  · next source target hsource htarget =>
    have hs := hg.lt_of_indexOf hsource
    have ht := hg.lt_of_indexOf htarget
    refine ⟨hg.index, ?_, fun i j => ?_, fun i j => ?_⟩
    · simp [connect, hg.neighborhoods, size]
    · rw [mem_incoming_connect hs ht, hasEdge_connect hs ht, hg.mirrored]
    · have hout := hasEdge_connect hs ht (i := i) (j := j)
      rw [HasEdge, HasEdge] at hout
      rw [mem_all_connect hs ht, mem_incoming_connect hs ht, hout, hg.all]
      -- `all` is the union of the other two sets, and each has grown by the same edge.
      grind
  · exact hg

/-- The step of the invariant `WellFormed`, with one case per constructor of `Call`. -/
theorem WellFormed.answer (hg : g.WellFormed) (call : Call) : (g.answer call).WellFormed := by
  cases call with
  | addNode node => exact hg.addNode node
  | addEdge signer signee => exact hg.addEdge signer signee

/-- Calls one after the other keep `WellFormed`, too. It is stated for any graph, since a table is
loaded into one that is not empty. -/
theorem WellFormed.foldl_answer (hg : g.WellFormed) (calls : List Call) :
    (calls.foldl StrongSetGraph.answer g).WellFormed :=
  List.foldlRecOn calls StrongSetGraph.answer hg fun _ hg call _ => hg.answer call

/-- Every graph that is built is `WellFormed`, whatever the calls are. -/
theorem wellFormed_build (calls : List Call) : (build calls).WellFormed :=
  wellFormed_empty.foldl_answer calls

/-! ### Nodes -/

/-- A call adds a node behind the others, or changes nothing. Its result says which of the two it
was. Later proofs about `addNode` split on it, and need not unfold the call. -/
theorem addNode_cases (g : StrongSetGraph) (node : StrongSetNode) :
    g.contains node.keyId = true ∧ g.addNode node = (g, none) ∨
      g.contains node.keyId = false ∧
        ∃ g', g.addNode node = (g', some g.size) ∧ g'.nodes = g.nodes ++ [node] := by
  rw [addNode]
  cases hold : g.contains node.keyId with
  | true => exact .inl ⟨rfl, rfl⟩
  | false => exact .inr ⟨rfl, _, rfl, rfl⟩

/-- After `addNode`, the keys of the graph are the old ones and that of the node, which may be among
them. -/
theorem contains_addNode (g : StrongSetGraph) (node : StrongSetNode) (k : KeyId) :
    (g.addNode node).1.contains k = true ↔ g.contains k = true ∨ k = node.keyId := by
  rw [addNode]
  split
  · next hold => exact (or_iff_left_of_imp fun heq => heq ▸ hold).symm
  · simp only [contains, indexOf, Table.find?_insert]
    by_cases hk : k = node.keyId <;> simp [hk]

/-- No two nodes have the same id, so the nodes are as many as the keys in the graph. -/
theorem WellFormed.nodup_keyIds (hg : g.WellFormed) : (g.nodes.map StrongSetNode.keyId).Nodup := by
  rw [List.Nodup, List.pairwise_iff_getElem]
  intro i j hi hj hlt heq
  rw [List.length_map] at hi hj
  rw [List.getElem_map, List.getElem_map] at heq
  -- The key of both nodes has one number.
  have hnumber := (hg.index g.nodes[j].keyId i).2 ⟨_, List.getElem?_eq_getElem hi, heq⟩
  rw [(hg.index g.nodes[j].keyId j).2 ⟨_, List.getElem?_eq_getElem hj, rfl⟩] at hnumber
  exact absurd (Option.some.inj hnumber) (Nat.ne_of_gt hlt)

/-- The ids of the nodes are the keys that the graph `contains`. The first are read from the list,
the others from the index. -/
theorem WellFormed.mem_keyIds_iff (hg : g.WellFormed) {k : KeyId} :
    k ∈ g.nodes.map StrongSetNode.keyId ↔ g.contains k = true := by
  rw [contains, Option.isSome_iff_exists, List.mem_map]
  simp only [hg.index, List.mem_iff_getElem?]
  constructor
  · rintro ⟨node, ⟨i, hi⟩, hk⟩
    exact ⟨i, node, hi, hk⟩
  · rintro ⟨i, node, hi, hk⟩
    exact ⟨node, ⟨i, hi⟩, hk⟩

/-! ### Graphs without loops -/

/-- No node has an edge to itself. Nothing in a graph forbids loops; it is the certifications that
have none. The corpora of both passes say so in their field `foreign`, and `loopless_build` takes it
as its condition. -/
def Loopless (g : StrongSetGraph) : Prop := ∀ i, ¬ g.HasEdge i i

/-- A call for different keys adds no loop, as these have different nodes. -/
theorem Loopless.answer (hloop : g.Loopless) (hg : g.WellFormed) {call : Call}
    (hcall : ∀ signer signee, call = .addEdge signer signee → signer ≠ signee) :
    (g.answer call).Loopless := by
  intro i hi
  cases call with
  | addNode node =>
    have hi : i ∈ ((g.addNode node).1.neighbors i).outgoing := hi
    rw [neighbors_addNode] at hi
    exact hloop i hi
  | addEdge signer signee =>
    -- A loop is either the new edge or was there before.
    rcases (hasEdge_addEdge hg signer signee).1 hi with ⟨hsigner, hsignee⟩ | hi
    · exact hcall signer signee rfl (hg.indexOf_inj hsigner hsignee)
    · exact hloop i hi

/-- If no key signs itself, there are no loops: two keys do not share a node. -/
theorem loopless_build {calls : List Call}
    (hcalls : ∀ signer signee, .addEdge signer signee ∈ calls → signer ≠ signee) :
    (build calls).Loopless := by
  have hstart : ({} : StrongSetGraph).Loopless := by
    intro i hi
    simp [HasEdge, neighbors] at hi
  refine (List.foldlRecOn (motive := fun g => g.WellFormed ∧ g.Loopless) calls answer
    ⟨wellFormed_empty, hstart⟩ fun g h call hmem => ⟨h.1.answer call, h.2.answer h.1 ?_⟩).2
  rintro signer signee rfl
  exact hcalls signer signee hmem

end StrongSetGraph

end WebOfTrust
