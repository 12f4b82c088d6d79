import WebOfTrust.StrongSet.Diagnostic
import WebOfTrust.StrongSet.Measures
import WebOfTrust.Table

/-!
# `WebOfTrust.StrongSet.Graph`: the strong-set graph

The strong set is a graph of keys: a node for each key, numbered in the order in which they are
added, and an edge from each signer to each key it certified. A key is added once, and an edge is
accepted if both its ends are nodes. Nodes never leave, so numbers stay valid.

A node keeps three sets of neighbours, by direction and all together, so an edge is entered in two
sets at either end.
-/

set_option autoImplicit false

namespace WebOfTrust

/-- What is known of a key of the strong set. Most of it comes from the connectivity table;
centralities and the clustering coefficient are entered later. -/
structure StrongSetNode where
  keyId : KeyId
  meanDistance : Binary64
  inDegree : UInt32
  outDegree : UInt32
  crossDegree : UInt32
  eccentricity : UInt32
  absoluteCentrality : Binary64 := ⟨0⟩
  relativeCentrality : Binary64 := ⟨0⟩
  clustering : Binary64 := ⟨0⟩
  deriving DecidableEq, Repr, Inhabited

/-- The node of a row of the connectivity table. Its degrees are those within the strong set. -/
def ConnectivityRow.node (r : ConnectivityRow) : StrongSetNode :=
  { keyId := r.keyId
    meanDistance := r.meanDistance
    inDegree := r.strongInDegree
    outDegree := r.strongOutDegree
    crossDegree := r.strongCrossDegree
    eccentricity := r.eccentricity }

/-! ### Neighbours -/

/-- The numbers of the nodes beside a node. A node that signed itself is beside itself. -/
structure Neighbors where
  /-- The signers of the key. -/
  incoming : KeySet Nat := ∅
  /-- The keys that it signed. -/
  outgoing : KeySet Nat := ∅
  /-- All neighbours, those in both directions once. -/
  all : KeySet Nat := ∅
  deriving DecidableEq, Inhabited

namespace Neighbors

/-- The number of directions in which there is an edge. It is 0, 1 or 2, by `weight_le_two`. -/
def weight (n : Neighbors) (other : Nat) : Nat :=
  (if other ∈ n.outgoing then 1 else 0) + (if other ∈ n.incoming then 1 else 0)

/-- The number of edges at the node. A neighbour in both directions counts twice. -/
def degree (n : Neighbors) : Nat := n.incoming.size + n.outgoing.size

end Neighbors

/-! ### Graphs -/

/-- The strong set as a graph. Nodes are numbered in the order in which they are added, and edges
are entered at both of their ends. `WellFormed` says how its fields belong together. -/
structure StrongSetGraph where
  /-- What is known of each key, in the order of the numbers. -/
  nodes : List StrongSetNode := []
  /-- The number of the node of each key. -/
  index : Table KeyId Nat := ∅
  /-- The neighbours of each node. -/
  neighborhoods : List Neighbors := []
  deriving DecidableEq, Inhabited

namespace StrongSetGraph

/-- The number of nodes. Numbers of nodes are below it. -/
def size (g : StrongSetGraph) : Nat := g.nodes.length

/-- Whether there are no nodes. It looks at the list and not at the index. -/
def isEmpty (g : StrongSetGraph) : Bool := g.nodes.isEmpty

/-- The number of the node of a key. `none` stands for a key outside the strong set. -/
def indexOf (g : StrongSetGraph) (k : KeyId) : Option Nat := g.index.find? k

/-- Whether a key has a node. `addNode` asks for it. -/
def contains (g : StrongSetGraph) (k : KeyId) : Bool := (g.indexOf k).isSome

/-- The neighbours of a node; a number without a node has none. It is total, so that lemmas need no
bounds. -/
def neighbors (g : StrongSetGraph) (i : Nat) : Neighbors := g.neighborhoods.getD i {}

/-- Adds a node, if its key has none yet. The second component is its number. `none` stands for a
call that was refused. -/
def addNode (g : StrongSetGraph) (node : StrongSetNode) : StrongSetGraph × Option Nat :=
  if g.contains node.keyId then (g, none)
  else
    ({ nodes := g.nodes ++ [node]
       index := g.index.insert node.keyId g.size
       neighborhoods := g.neighborhoods ++ [{}] },
      some g.size)

/-- The graph with an edge between two of its nodes, entered in four sets. It checks nothing;
`addEdge` does. -/
def connect (g : StrongSetGraph) (source target : Nat) : StrongSetGraph :=
  let neighborhoods := g.neighborhoods.modify target fun n =>
    { n with incoming := n.incoming.add source }
  let neighborhoods := neighborhoods.modify source fun n =>
    { n with outgoing := n.outgoing.add target }
  let neighborhoods := neighborhoods.modify target fun n => { n with all := n.all.add source }
  { g with
    neighborhoods := neighborhoods.modify source fun n => { n with all := n.all.add target } }

/-- Adds the edge of a certification, if both keys have nodes. The second component tells that. A
repeated call succeeds and changes nothing. -/
def addEdge (g : StrongSetGraph) (signer signee : KeyId) : StrongSetGraph × Bool :=
  match g.indexOf signer, g.indexOf signee with
  | some source, some target => (g.connect source target, true)
  | _, _ => (g, false)

/-- Changes what is known of a key. Its id is no part of that. Edges are not touched. -/
def modifyNode (g : StrongSetGraph) (i : Nat) (f : StrongSetNode → StrongSetNode) :
    StrongSetGraph :=
  { g with nodes := g.nodes.modify i f }

/-- The numbers of edge ends that enter and leave nodes. The zero of the sums is the number itself,
whatever else could be found for it. So no instance of another library takes its place. -/
def edgeDegreeTotals (g : StrongSetGraph) : DegreeTotals :=
  { incoming := @List.sum Nat _ ⟨0⟩ (g.neighborhoods.map (·.incoming.size))
    outgoing := @List.sum Nat _ ⟨0⟩ (g.neighborhoods.map (·.outgoing.size)) }

end StrongSetGraph

end WebOfTrust
