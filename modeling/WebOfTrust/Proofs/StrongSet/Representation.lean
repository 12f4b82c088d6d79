import WebOfTrust.Proofs.StrongSet.EdgeTotals

/-!
# `WebOfTrust.Proofs.StrongSet.Representation`: a graph holds what was asked of it

A graph keeps the same facts several times: the ids of its nodes in the nodes and in the index, an
edge in four sets at its two ends. Each reader uses only one of these, so they have to agree after
any calls, also those that name a key twice, that name one without a node, or that join a key to
itself.

The calls themselves say what there should be. The nodes are the keys that were asked for, each at
the first time it was. The edges are the pairs that were asked for when both keys had nodes: a pair
that comes too early is refused, and nobody remembers it when the second key arrives.

- `StrongSetGraph.accepted`: the pairs of keys of the calls that were granted;
- `StrongSetGraph.keyIds_build`, `StrongSetGraph.hasEdge_build_iff`: nodes and edges, told by the
  calls;
- `StrongSetGraph.build_represents`: the graph that calls build, in all its parts.
-/

set_option autoImplicit false

namespace WebOfTrust

namespace StrongSetGraph

variable {g : StrongSetGraph} {i j : Nat}

/-! ### Calls that are granted -/

/-- Whether a call is granted: a new node, or an edge between two nodes. It is what the call
returns. It is stated by `addNode` and `addEdge` themselves, so that nothing is decided twice. -/
def granted (g : StrongSetGraph) : Call → Bool
  | .addNode node => (g.addNode node).2.isSome
  | .addEdge signer signee => (g.addEdge signer signee).2

/-- A call that is refused leaves the graph as it is, for both constructors of `Call`. For a node
this is `addNode_cases`. -/
theorem answer_of_not_granted {call : Call} (h : g.granted call = false) : g.answer call = g := by
  cases call with
  | addNode node =>
    have hrefused : (g.addNode node).2.isSome = false := h
    show (g.addNode node).1 = g
    rcases g.addNode_cases node with ⟨-, hold⟩ | ⟨-, g', hnew, -⟩
    · rw [hold]
    · rw [hnew] at hrefused
      cases hrefused
  | addEdge signer signee =>
    have hrefused : (g.addEdge signer signee).2 = false := h
    show (g.addEdge signer signee).1 = g
    unfold addEdge at hrefused ⊢
    -- An edge is refused exactly if one of the two nodes is not found.
    split at hrefused
    · cases hrefused
    · rfl

/-- A call for an edge is granted if both keys have nodes, whether or not the edge is there already.
A repeated call is granted, therefore, and adds nothing. -/
theorem granted_addEdge (g : StrongSetGraph) (signer signee : KeyId) :
    g.granted (.addEdge signer signee) = (g.contains signer && g.contains signee) := by
  show (g.addEdge signer signee).2 = ((g.indexOf signer).isSome && (g.indexOf signee).isSome)
  rw [addEdge_snd, edge?]
  cases g.indexOf signer <;> cases g.indexOf signee <;> rfl

/-- The key for which a call asks a node, if it is a call of `addNode`. -/
def Call.added? : Call → Option KeyId
  | .addNode node => some node.keyId
  | .addEdge _ _ => none

/-- The pair of keys that a call joins, if it is a call of `addEdge` that is `granted`. -/
def joined? (g : StrongSetGraph) : Call → Option (KeyId × KeyId)
  | .addNode _ => none
  | .addEdge signer signee =>
    if g.granted (.addEdge signer signee) then some (signer, signee) else none

/-- A pair is joined by a call for it that is `granted`. Nodes join nothing. -/
theorem joined?_eq_some_iff {call : Call} {e : KeyId × KeyId} :
    g.joined? call = some e ↔ call = .addEdge e.1 e.2 ∧ g.granted call = true := by
  cases call with
  | addNode node => simp [joined?]
  | addEdge signer signee =>
    rw [joined?, Option.ite_none_right_eq_some, Option.some.injEq, Prod.ext_iff,
      Call.addEdge.injEq, and_comm]

/-- The pairs that calls join, in the order of the calls. Each call is judged by the graph that
those before it have built. The list may have a pair several times; `card_edgeSet_build` counts it
once. -/
def accepted (g : StrongSetGraph) : List Call → List (KeyId × KeyId)
  | [] => []
  | call :: calls => (g.joined? call).toList ++ accepted (g.answer call) calls

/-- The last of the calls is answered by the graph that the others have built. Inductions on calls
go from behind by this. -/
theorem build_concat (calls : List Call) (call : Call) :
    build (calls ++ [call]) = (build calls).answer call := by
  unfold build
  rw [List.foldl_append]
  rfl

/-- Further calls are judged by the graph that the first ones have built, which is why `accepted`
has a graph as an argument. -/
theorem accepted_append (g : StrongSetGraph) (calls calls' : List Call) :
    g.accepted (calls ++ calls') = g.accepted calls ++ (calls.foldl answer g).accepted calls' := by
  induction calls generalizing g with
  | nil => rfl
  | cons call calls ih => simp [accepted, ih]

/-- One call more joins one pair more, or none. It is the step of all inductions about
`accepted`. -/
theorem accepted_concat (calls : List Call) (call : Call) :
    accepted {} (calls ++ [call]) = accepted {} calls ++ ((build calls).joined? call).toList := by
  rw [accepted_append]
  simp [accepted, build]

/-- A pair is accepted by some call for it, and what decides is the graph at that time. The graph at
that time is `build before`. -/
theorem mem_accepted_iff {calls : List Call} {e : KeyId × KeyId} :
    e ∈ accepted {} calls ↔ ∃ before after, calls = before ++ .addEdge e.1 e.2 :: after ∧
      (build before).granted (.addEdge e.1 e.2) = true := by
  constructor
  · -- From behind, since the last call is judged by the graph of all others.
    induction calls using List.reverseRecOn with
    | nil => simp [accepted]
    | append_singleton calls call ih =>
      intro he
      rw [accepted_concat, List.mem_append, Option.mem_toList] at he
      rcases he with he | he
      · obtain ⟨before, after, rfl, hgranted⟩ := ih he
        exact ⟨before, after ++ [call], by simp, hgranted⟩
      · obtain ⟨rfl, hgranted⟩ := joined?_eq_some_iff.1 he
        exact ⟨calls, [], rfl, hgranted⟩
  · rintro ⟨before, after, rfl, hgranted⟩
    rw [accepted_append, List.mem_append]
    refine .inr (List.mem_append_left _ ?_)
    rw [Option.mem_toList]
    exact joined?_eq_some_iff.2 ⟨rfl, hgranted⟩

/-! ### Nodes -/

/-- A key keeps the number of its node, whatever call is answered. So numbers that were found early
are good for the graph in the end. -/
theorem indexOf_answer_of_some {k : KeyId} (h : g.indexOf k = some i) (call : Call) :
    (g.answer call).indexOf k = some i := by
  cases call with
  | addNode node =>
    show (g.addNode node).1.indexOf k = some i
    unfold addNode
    split
    · exact h
    · next hnew =>
      -- A new node has a key without a number, so it is another key.
      have hne : k ≠ node.keyId := by
        rintro rfl
        simp [contains, h] at hnew
      show (g.index.insert node.keyId g.size).find? k = some i
      rw [Table.find?_insert, if_neg hne]
      exact h
  | addEdge signer signee =>
    show (g.addEdge signer signee).1.indexOf k = some i
    rw [indexOf_addEdge, h]

/-- An element behind a list is kept by `eraseDups` if it is not in the list. `addNode` treats a key
in the same way. -/
theorem eraseDups_concat {α : Type} [DecidableEq α] (l : List α) (a : α) :
    (l ++ [a]).eraseDups = if a ∈ l then l.eraseDups else l.eraseDups ++ [a] := by
  rw [List.eraseDups_append, List.removeAll, List.filter_cons, List.filter_nil]
  by_cases ha : a ∈ l <;> simp [ha, List.eraseDups_cons]

/-- The ids of the nodes are those that calls asked for, each where it came first. The induction is
on the calls, from behind. -/
theorem keyIds_build (calls : List Call) :
    (build calls).nodes.map StrongSetNode.keyId = (calls.filterMap Call.added?).eraseDups := by
  induction calls using List.reverseRecOn with
  | nil => rfl
  | append_singleton calls call ih =>
    rw [build_concat, List.filterMap_append]
    cases call with
    | addNode node =>
      show ((build calls).addNode node).1.nodes.map StrongSetNode.keyId
        = (calls.filterMap Call.added? ++ [node.keyId]).eraseDups
      -- Whether the key has a node already is whether it has been asked for.
      have hold : (build calls).contains node.keyId = true ↔
          node.keyId ∈ calls.filterMap Call.added? := by
        rw [← (wellFormed_build calls).mem_keyIds_iff, ih, List.mem_eraseDups]
      rw [eraseDups_concat, ← ih]
      rcases (build calls).addNode_cases node with ⟨hmem, h⟩ | ⟨hnew, g', h, hnodes⟩
      · rw [h, if_pos (hold.1 hmem)]
      · rw [h, if_neg fun hmem => by simp [hold.2 hmem] at hnew]
        simp [hnodes]
    | addEdge signer signee =>
      show ((build calls).addEdge signer signee).1.nodes.map StrongSetNode.keyId
        = (calls.filterMap Call.added? ++ []).eraseDups
      rw [List.append_nil, ← ih, addEdge]
      split <;> rfl

/-- So the built graph `contains` a key exactly if some call asked for a node for it. -/
theorem contains_build_iff {calls : List Call} {k : KeyId} :
    (build calls).contains k = true ↔ k ∈ calls.filterMap Call.added? := by
  rw [← (wellFormed_build calls).mem_keyIds_iff, keyIds_build, List.mem_eraseDups]

/-! ### Edges -/

/-- A pair that has an edge keeps it, with the same two numbers, by `indexOf_answer_of_some` for
both ends. -/
theorem edge?_answer_of_some {e : KeyId × KeyId} (h : g.edge? e = some (i, j)) (call : Call) :
    (g.answer call).edge? e = some (i, j) := by
  rw [edge?_eq_some_iff] at h ⊢
  exact ⟨indexOf_answer_of_some h.1 call, indexOf_answer_of_some h.2 call⟩

/-- A pair that is joined has two nodes, so `edge?` gives their numbers. -/
theorem isSome_edge?_of_joined? {call : Call} {e : KeyId × KeyId} (h : g.joined? call = some e) :
    (g.edge? e).isSome = true := by
  obtain ⟨rfl, hgranted⟩ := joined?_eq_some_iff.1 h
  rw [← addEdge_snd]
  exact hgranted

/-- Every accepted pair has an edge in the graph that is built in the end. It had one when it was
accepted, and `edge?_answer_of_some` carries it on. -/
theorem isSome_edge?_of_mem_accepted {calls : List Call} {e : KeyId × KeyId}
    (h : e ∈ accepted {} calls) : ((build calls).edge? e).isSome = true := by
  induction calls using List.reverseRecOn with
  | nil => cases h
  | append_singleton calls call ih =>
    -- It was accepted before, or by this very call.
    have hedge : ((build calls).edge? e).isSome = true := by
      rw [accepted_concat, List.mem_append, Option.mem_toList] at h
      exact h.elim ih isSome_edge?_of_joined?
    obtain ⟨⟨i, j⟩, hij⟩ := Option.isSome_iff_exists.1 hedge
    rw [build_concat, edge?_answer_of_some hij]
    rfl

/-- The edges after a call are the old ones and that of the pair that the call joins, if there is
one. It puts `neighbors_addNode` and `hasEdge_addEdge` into one statement. -/
theorem hasEdge_answer (hg : g.WellFormed) (call : Call) : (g.answer call).HasEdge i j ↔
    (∃ e, g.joined? call = some e ∧ g.edge? e = some (i, j)) ∨ g.HasEdge i j := by
  cases call with
  | addNode node =>
    show j ∈ ((g.addNode node).1.neighbors i).outgoing ↔ _
    rw [neighbors_addNode]
    simp [joined?, HasEdge]
  | addEdge signer signee =>
    show (g.addEdge signer signee).1.HasEdge i j ↔ _
    -- A pair is joined if and only if both of its keys have nodes.
    have hgranted : g.granted (.addEdge signer signee) = (g.edge? (signer, signee)).isSome :=
      g.addEdge_snd signer signee
    rw [hasEdge_addEdge hg, ← edge?_eq_some_iff (e := (signer, signee)), joined?, hgranted]
    cases h : g.edge? (signer, signee) <;> simp [h]

/-- The edges of a built graph are those of the `accepted` pairs, with the numbers that their keys
have in the end. -/
theorem hasEdge_build_iff {calls : List Call} : (build calls).HasEdge i j ↔
    ∃ e ∈ accepted {} calls, (build calls).edge? e = some (i, j) := by
  induction calls using List.reverseRecOn with
  | nil => simp [accepted, build, HasEdge, neighbors]
  | append_singleton calls call ih =>
    rw [build_concat, hasEdge_answer (wellFormed_build calls), ih, accepted_concat]
    -- A pair that has an edge already has the same one in both graphs.
    have hsame : ∀ e, ((build calls).edge? e).isSome = true →
        ((build calls).edge? e = some (i, j) ↔
          ((build calls).answer call).edge? e = some (i, j)) := by
      intro e he
      obtain ⟨⟨i', j'⟩, hij⟩ := Option.isSome_iff_exists.1 he
      rw [hij, edge?_answer_of_some hij]
    simp only [List.mem_append, Option.mem_toList, or_and_right, exists_or]
    rw [or_comm]
    refine or_congr ?_ ?_
    · exact exists_congr fun e => and_congr_right fun he =>
        hsame e (isSome_edge?_of_mem_accepted he)
    · exact exists_congr fun e => and_congr_right fun he => hsame e (isSome_edge?_of_joined? he)

/-- There are as many edges as different pairs were `accepted`, because two pairs do not share an
edge. -/
theorem card_edgeSet_build (calls : List Call) :
    (build calls).edgeSet.card = (accepted {} calls).toFinset.card := by
  have hg := wellFormed_build calls
  have hsome : ∀ e ∈ (accepted {} calls).toFinset, ((build calls).edge? e).isSome = true :=
    fun e he => isSome_edge?_of_mem_accepted (List.mem_toFinset.1 he)
  symm
  -- Each pair is sent to its edge, which is one-to-one by `edge?_inj`.
  refine Finset.card_bij (fun e he => ((build calls).edge? e).get (hsome e he)) ?_ ?_ ?_
  · intro e he
    rw [hg.mem_edgeSet, hasEdge_build_iff]
    exact ⟨e, List.mem_toFinset.1 he, (Option.some_get (hsome e he)).symm⟩
  · intro e he e' he' heq
    have hedge' := Option.some_get (hsome e' he')
    rw [← heq] at hedge'
    exact hg.edge?_inj (Option.some_get (hsome e he)).symm hedge'.symm
  · rintro ⟨i, j⟩ hij
    obtain ⟨e, he, hedge⟩ := hasEdge_build_iff.1 (hg.mem_edgeSet.1 hij)
    refine ⟨e, List.mem_toFinset.2 he, ?_⟩
    rw [Option.get_of_eq_some _ hedge]

/-! ### The whole graph -/

/-- The graph holds what `calls` asked of it, in whichever of its parts it is read: list of nodes,
index, neighborhoods or totals. -/
structure Represents (g : StrongSetGraph) (calls : List Call) : Prop where
  /-- There is a node for each key that was asked for, in the order of the first calls for them. -/
  nodes : g.nodes.map StrongSetNode.keyId = (calls.filterMap Call.added?).eraseDups
  /-- Keys and numbers belong together in both directions. -/
  index : ∀ k i, g.indexOf k = some i ↔ ∃ node, g.nodes[i]? = some node ∧ node.keyId = k
  /-- No key has two nodes. -/
  distinct : (g.nodes.map StrongSetNode.keyId).Nodup
  /-- Every node has neighbours, be it none. -/
  neighborhoods : g.neighborhoods.length = g.size
  /-- There is an edge where one was asked for behind the calls for both of its keys. -/
  edges : ∀ i j, j ∈ (g.neighbors i).outgoing ↔ ∃ source target,
    g.nodes[i]? = some source ∧ g.nodes[j]? = some target ∧
      ∃ before after, calls = before ++ .addEdge source.keyId target.keyId :: after ∧
        source.keyId ∈ before.filterMap Call.added? ∧ target.keyId ∈ before.filterMap Call.added?
  /-- An edge is seen from both of its ends. -/
  mirrored : ∀ i j, j ∈ (g.neighbors i).outgoing ↔ i ∈ (g.neighbors j).incoming
  /-- The third set is the union of the other two. -/
  all : ∀ i j, j ∈ (g.neighbors i).all ↔ j ∈ (g.neighbors i).incoming ∨ j ∈ (g.neighbors i).outgoing
  /-- Neighbours are nodes. -/
  bound : ∀ i j, j ∈ (g.neighbors i).incoming ∨ j ∈ (g.neighbors i).outgoing ∨
    j ∈ (g.neighbors i).all → j < g.size
  /-- Two nodes have the same weight for each other. -/
  weight : ∀ i j, (g.neighbors i).weight j = (g.neighbors j).weight i
  /-- The edges are counted at either end, and each of them once, however often it was granted. -/
  totals : g.edgeDegreeTotals
    = ⟨(accepted {} calls).toFinset.card, (accepted {} calls).toFinset.card⟩

/-- The weight counts directions between `i` and `j`, and these are the same seen from `j`. It needs
the field `mirrored`. -/
theorem WellFormed.weight_comm (hg : g.WellFormed) (i j : Nat) :
    (g.neighbors i).weight j = (g.neighbors j).weight i := by
  have hout := hg.mirrored i j
  have hin := hg.mirrored j i
  unfold HasEdge at hout hin
  simp only [Neighbors.weight, ← hout, hin]
  exact Nat.add_comm _ _

/-- There is an edge where one was asked for behind the calls for both of its keys. A call that came
too early left nothing. The condition is that `Call.added?` gave both keys in `before`. -/
theorem edges_build (calls : List Call) (i j : Nat) :
    (build calls).HasEdge i j ↔ ∃ source target,
      (build calls).nodes[i]? = some source ∧ (build calls).nodes[j]? = some target ∧
        ∃ before after, calls = before ++ .addEdge source.keyId target.keyId :: after ∧
          source.keyId ∈ before.filterMap Call.added? ∧
            target.keyId ∈ before.filterMap Call.added? := by
  have hg := wellFormed_build calls
  -- `granted` asks for the two nodes, and a node is there if a call before asked for it.
  have haccepted : ∀ e : KeyId × KeyId, e ∈ accepted {} calls ↔
      ∃ before after, calls = before ++ .addEdge e.1 e.2 :: after ∧
        e.1 ∈ before.filterMap Call.added? ∧ e.2 ∈ before.filterMap Call.added? := by
    intro e
    simp only [mem_accepted_iff, granted_addEdge, Bool.and_eq_true, contains_build_iff]
  rw [hasEdge_build_iff]
  constructor
  · rintro ⟨e, he, hedge⟩
    rw [edge?_eq_some_iff, hg.index, hg.index] at hedge
    obtain ⟨⟨source, hsource, hid⟩, target, htarget, hid'⟩ := hedge
    have hcalls := (haccepted e).1 he
    rw [← hid, ← hid'] at hcalls
    exact ⟨source, target, hsource, htarget, hcalls⟩
  · rintro ⟨source, target, hsource, htarget, hcalls⟩
    refine ⟨(source.keyId, target.keyId), (haccepted _).2 hcalls, ?_⟩
    rw [edge?_eq_some_iff, hg.index, hg.index]
    exact ⟨⟨source, hsource, rfl⟩, target, htarget, rfl⟩

/-- Whatever the calls are, the graph that they build `Represents` them. A call that is refused,
that is, not `granted`, leaves any graph as it is. -/
theorem build_represents :
    (∀ calls, (build calls).Represents calls) ∧
      ∀ (g : StrongSetGraph) (call : Call), g.granted call = false → g.answer call = g := by
  refine ⟨fun calls => ?_, fun g call => answer_of_not_granted⟩
  have hg := wellFormed_build calls
  have hall : ∀ i j, j ∈ ((build calls).neighbors i).all ↔
      j ∈ ((build calls).neighbors i).incoming ∨ j ∈ ((build calls).neighbors i).outgoing := by
    intro i j
    rw [hg.all]
    exact or_comm
  -- A number in one of the sets is an end of an edge, and both ends of edges are nodes.
  have hbound : ∀ i j, j ∈ ((build calls).neighbors i).incoming ∨
      j ∈ ((build calls).neighbors i).outgoing ∨ j ∈ ((build calls).neighbors i).all →
        j < (build calls).size := by
    intro i j h
    rw [hall, ← or_assoc, or_self] at h
    cases h with
    | inl hin => exact (hg.lt_of_hasEdge ((hg.mirrored j i).1 hin)).1
    | inr hout => exact (hg.lt_of_hasEdge hout).2
  exact {
    nodes := keyIds_build calls
    index := hg.index
    distinct := hg.nodup_keyIds
    neighborhoods := hg.neighborhoods
    edges := edges_build calls
    mirrored := fun i j => (hg.mirrored i j).symm
    all := hall
    bound := hbound
    weight := hg.weight_comm
    totals := by rw [hg.edgeDegreeTotals_eq, card_edgeSet_build] }

end StrongSetGraph

end WebOfTrust
