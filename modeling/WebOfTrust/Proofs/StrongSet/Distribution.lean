import Mathlib.Algebra.Ring.Nat
import Mathlib.Data.List.Induction
import Mathlib.Logic.Function.Basic
import Mathlib.Order.Bounds.Basic
import WebOfTrust.StrongSet.Distribution.InPlace

/-!
# `WebOfTrust.Proofs.StrongSet.Distribution`: the rows of a distribution are exact counts

Three degrees of each node are counted in one table, whose rows reach from zero to the greatest of
all of them. So a kind of degree can end long before the table does, and its rows are zero from
there on. What is left at a row are the nodes of its degree or a greater one, and taking off those
of its degree leaves those of the next row, which is the invariant of the second pass.

- `countDegrees_counted`: what one node changes in the rows, none of which is missing;
- `fillAtLeast_counted`: the second pass, which never takes off more than is left;
- `distributions_exact`: both distributions, for every list of nodes.
-/

set_option autoImplicit false

namespace WebOfTrust

variable {nodes : List StrongSetNode}

/-! ### Counts -/

/-- How many of `values` are `v` or greater. -/
def countFrom (values : List Nat) (v : Nat) : Nat := values.countP (v ≤ ·)

/-- Those of a value and those above it are those from it on. So one column of a distribution is
made of differences of the other. `behind_leftAt` subtracts by it, and `sum_countOf_add_countFrom`
adds up by it. -/
theorem countOf_add_countFrom (values : List Nat) (v : Nat) :
    countOf values v + countFrom values (v + 1) = countFrom values v := by
  induction values with
  | nil => rfl
  | cons x values ih =>
    simp only [countOf, countFrom, List.countP_cons, decide_eq_true_eq] at ih ⊢
    split <;> split <;> split <;> omega

/-- All values are zero or greater, so `countFrom values 0` is the number of nodes. The loop over
degrees starts with it. -/
theorem countFrom_zero (values : List Nat) : countFrom values 0 = values.length := by
  simp [countFrom]

/-- One value more is counted at one place, which is an update of the counts there.
`Function.update` says that no other place changes. -/
theorem countOf_concat (values : List Nat) (v : Nat) :
    countOf (values ++ [v]) = Function.update (countOf values) v (countOf values v + 1) := by
  funext w
  rw [Function.update_apply]
  split
  · next h => simp [countOf, h]
  · next h => simp [countOf, Ne.symm h]

/-- What `survival` gives are the counts at each value and from it on, if it is started with the
count from the first one. -/
theorem survival_eq (values : List Nat) (first n : Nat) :
    survival values (countFrom values first) first n =
      (List.range' first n).map fun d => ⟨countOf values d, countFrom values d⟩ := by
  induction n generalizing first with
  | zero => rfl
  | succ n ih =>
    -- What is left behind the first value is what there is from the next one on.
    have hleft : countFrom values first - countOf values first = countFrom values (first + 1) := by
      have hsplit := countOf_add_countFrom values first
      omega
    rw [survival, hleft, ih, List.range'_succ, List.map_cons]

/-! ### Rows -/

/-- The row of a degree, as it should be: nodes with this degree, and nodes with this degree or a
greater one, for each of the three kinds. It is the specification for both definitions of the
distribution. -/
def exactDegreeRow (nodes : List StrongSetNode) (d : Nat) : DegreeRow where
  degree := d
  incoming := ⟨nodes.countP (·.inDegree.toNat = d), nodes.countP (d ≤ ·.inDegree.toNat)⟩
  outgoing := ⟨nodes.countP (·.outDegree.toNat = d), nodes.countP (d ≤ ·.outDegree.toNat)⟩
  cross := ⟨nodes.countP (·.crossDegree.toNat = d), nodes.countP (d ≤ ·.crossDegree.toNat)⟩

/-- The degrees of `nodes` of one `kind`, in the order of the nodes and with repetitions. -/
def degreesOfKind (nodes : List StrongSetNode) (kind : DegreeKind) : List Nat :=
  nodes.map (·.degree kind)

/-- The two counts for degree `d` of one `kind`: how many nodes have it, and how many have it or
more. -/
def exactCount (nodes : List StrongSetNode) (kind : DegreeKind) (d : Nat) : DegreeCount :=
  ⟨countOf (degreesOfKind nodes kind) d, countFrom (degreesOfKind nodes kind) d⟩

/-- A row has three such counts. Lemmas about one kind at a time are put together by it. It is true
by definition of `exactCount`, kind by kind. -/
theorem exactDegreeRow_eq (nodes : List StrongSetNode) (d : Nat) :
    exactDegreeRow nodes d = ⟨d, exactCount nodes .incoming d, exactCount nodes .outgoing d,
      exactCount nodes .cross d⟩ := by
  simp only [exactCount, countOf, countFrom, degreesOfKind, List.countP_map]
  rfl

/-- The set of the degrees of `nodes`, of all kinds. Its greatest element is the degree of the last
row. -/
def degreesOf (nodes : List StrongSetNode) : Set Nat :=
  {d | ∃ node ∈ nodes, ∃ kind, node.degree kind = d}

/-- No degree of a node exceeds `greatestDegree`. So the row for it is there when the node is
counted. -/
theorem StrongSetNode.degree_le (node : StrongSetNode) (kind : DegreeKind) :
    node.degree kind ≤ node.greatestDegree := by
  cases kind <;> simp [degree, greatestDegree]

/-- The greatest degree of a node is one of its three degrees. With `degree_le`, the greatest of
these is a degree that occurs. -/
theorem StrongSetNode.exists_degree_eq (node : StrongSetNode) :
    ∃ kind, node.degree kind = node.greatestDegree := by
  have hcases : node.greatestDegree = node.inDegree.toNat ∨
      node.greatestDegree = node.outDegree.toNat ∨
      node.greatestDegree = node.crossDegree.toNat := by
    unfold greatestDegree
    omega
  rcases hcases with h | h | h
  · exact ⟨.incoming, h.symm⟩
  · exact ⟨.outgoing, h.symm⟩
  · exact ⟨.cross, h.symm⟩

/-- The greatest degree is the greatest of those that single nodes have. The in-place version finds
the last row in this way. -/
theorem isGreatest_of_max?_greatestDegree {M : Nat}
    (h : (nodes.map (·.greatestDegree)).max? = some M) : IsGreatest (degreesOf nodes) M := by
  obtain ⟨hmem, hle⟩ := List.max?_eq_some_iff.1 h
  obtain ⟨node, hnode, rfl⟩ := List.mem_map.1 hmem
  refine ⟨⟨node, hnode, node.exists_degree_eq⟩, ?_⟩
  rintro d ⟨other, hother, kind, rfl⟩
  exact (other.degree_le kind).trans (hle _ (List.mem_map_of_mem hother))

/-- The maximum of the three lists of degrees, put together, is the greatest element of `degreesOf`,
too. The two definitions of a distribution find it in these two ways. -/
theorem isGreatest_of_max?_append {M : Nat} (h : (degreesOfKind nodes .incoming
    ++ degreesOfKind nodes .outgoing ++ degreesOfKind nodes .cross).max? = some M) :
    IsGreatest (degreesOf nodes) M := by
  have hmem : ∀ d, d ∈ degreesOfKind nodes .incoming ++ degreesOfKind nodes .outgoing
      ++ degreesOfKind nodes .cross ↔ d ∈ degreesOf nodes := by
    intro d
    show _ ↔ ∃ node ∈ nodes, ∃ kind, node.degree kind = d
    simp only [degreesOfKind, List.mem_append, List.mem_map]
    -- A kind is one of the three lists.
    constructor
    · rintro ((⟨node, hnode, hd⟩ | ⟨node, hnode, hd⟩) | ⟨node, hnode, hd⟩)
      all_goals exact ⟨node, hnode, _, hd⟩
    · rintro ⟨node, hnode, kind, hd⟩
      cases kind with
      | incoming => exact .inl (.inl ⟨node, hnode, hd⟩)
      | outgoing => exact .inl (.inr ⟨node, hnode, hd⟩)
      | cross => exact .inr ⟨node, hnode, hd⟩
  obtain ⟨hM, hle⟩ := List.max?_eq_some_iff.1 h
  exact ⟨(hmem M).1 hM, fun d hd => hle d ((hmem d).2 hd)⟩

/-! ### The degree distribution -/

/-- The counts of one kind, for all degrees up to the greatest one. `degreeCounts` walks down from
the greatest degree, and `exactCount` looks at one degree alone. -/
theorem degreeCounts_eq (nodes : List StrongSetNode) (kind : DegreeKind) (greatest : Nat) :
    degreeCounts (degreesOfKind nodes kind) greatest =
      (List.range (greatest + 1)).map (exactCount nodes kind) := by
  rw [degreeCounts, ← countFrom_zero, survival_eq, List.range_eq_range']
  rfl

/-- The rows out of three columns that are put beside each other by `zip`. What is proved for one
column with `degreeCounts_eq` holds of all three. -/
theorem degreeDistribution_of_max? {M : Nat} (h : (degreesOfKind nodes .incoming
    ++ degreesOfKind nodes .outgoing ++ degreesOfKind nodes .cross).max? = some M) :
    degreeDistribution nodes = (List.range (M + 1)).map (exactDegreeRow nodes) := by
  -- The definition reads the maximum first, and has three columns of that length.
  have hcolumns : degreeDistribution nodes =
      ((degreeCounts (degreesOfKind nodes .incoming) M).zip
        ((degreeCounts (degreesOfKind nodes .outgoing) M).zip
          (degreeCounts (degreesOfKind nodes .cross) M))).mapIdx
        fun degree counts => ⟨degree, counts.1, counts.2.1, counts.2.2⟩ := by
    have hmax : (nodes.map (·.inDegree.toNat) ++ nodes.map (·.outDegree.toNat)
        ++ nodes.map (·.crossDegree.toNat)).max? = some M := h
    simp only [degreeDistribution, hmax]
    rfl
  rw [hcolumns, degreeCounts_eq, degreeCounts_eq, degreeCounts_eq]
  refine List.ext_getElem (by simp) fun d _ _ => ?_
  simp [exactDegreeRow_eq]

/-- The distribution has the exact row of each degree, up to the greatest one of any kind.
`IsGreatest` pins `M` down, however the program finds it. -/
theorem degreeDistribution_eq {M : Nat} (hM : IsGreatest (degreesOf nodes) M) :
    degreeDistribution nodes = (List.range (M + 1)).map (exactDegreeRow nodes) := by
  refine degreeDistribution_of_max? ?_
  cases h : (degreesOfKind nodes .incoming ++ degreesOfKind nodes .outgoing
      ++ degreesOfKind nodes .cross).max? with
  | none =>
    -- The node with the greatest degree is in all three lists.
    obtain ⟨node, hnode, -⟩ := hM.1
    rw [List.max?_eq_none_iff, List.append_eq_nil_iff, degreesOfKind, degreesOfKind] at h
    simp_all
  | some greatest => rw [(isGreatest_of_max?_append h).unique hM]

/-! ### In place -/

/-- The row of a degree behind the first pass, where the nodes have been counted. The numbers of
nodes that are left are filled in by the second pass. In the program these are zero until then. -/
def countedRow (counts : DegreeKind → Nat → Nat) (d : Nat) : DegreeRow :=
  ⟨d, ⟨counts .incoming d, 0⟩, ⟨counts .outgoing d, 0⟩, ⟨counts .cross d, 0⟩⟩

/-- How often each degree occurs among `nodes`, per kind. The first pass arrives at these counts. -/
def countsOf (nodes : List StrongSetNode) (kind : DegreeKind) : Nat → Nat :=
  countOf (degreesOfKind nodes kind)

/-- A change of the row of one value. Rows that start at `first` have it at the place `i`, and the
other rows are asked to be the same before and after. -/
theorem Checked.modify_map_range' {α : Type} {row row' : Nat → α} {change : α → α}
    {first n i : Nat} (hi : i < n) (hat : change (row (first + i)) = row' (first + i))
    (hother : ∀ d, d ≠ first + i → row d = row' d) :
    Checked.modify ((List.range' first n).map row) i change
      = .ok ((List.range' first n).map row') := by
  rw [modify_of_lt (by simpa using hi)]
  congr 1
  refine List.ext_getElem (by simp) fun j _ _ => ?_
  simp only [List.getElem_modify, List.getElem_map, List.getElem_range', Nat.one_mul]
  split
  · next hij => rw [← hij, hat]
  · next hij => exact hother _ (by omega)

/-- A node is counted in the row of its degree, and in no other. The row is there, because no degree
exceeds `M`. -/
theorem countDegree_counted {M : Nat} {node : StrongSetNode} {kind : DegreeKind}
    (hM : node.degree kind ≤ M) (counts : DegreeKind → Nat → Nat) :
    countDegree ((List.range' 0 (M + 1)).map (countedRow counts)) node kind
      = .ok ((List.range' 0 (M + 1)).map (countedRow (Function.update counts kind
          (Function.update (counts kind) (node.degree kind)
            (counts kind (node.degree kind) + 1))))) := by
  refine Checked.modify_map_range' (by omega) ?_ fun d hd => ?_
  · cases kind <;> simp [countedRow, DegreeRow.bump, DegreeCount.bump]
  · rw [Nat.zero_add] at hd
    cases kind <;> simp [countedRow, Function.update_of_ne hd]

/-- Counting one more node turns the counts of `front` into those of `front ++ [node]`, for all
three degrees of the node. Since `M` bounds them, no row is missing. -/
theorem countDegrees_counted {M : Nat} {node : StrongSetNode} (hM : node.greatestDegree ≤ M)
    (front : List StrongSetNode) :
    countDegrees ((List.range' 0 (M + 1)).map (countedRow (countsOf front))) node
      = .ok ((List.range' 0 (M + 1)).map (countedRow (countsOf (front ++ [node])))) := by
  have hle : ∀ kind, node.degree kind ≤ M := fun kind => (node.degree_le kind).trans hM
  have hcounts : ∀ kind, countsOf (front ++ [node]) kind =
      Function.update (countsOf front kind) (node.degree kind)
        (countsOf front kind (node.degree kind) + 1) := by
    intro kind
    rw [countsOf, degreesOfKind, List.map_append]
    exact countOf_concat _ _
  -- The three kinds are counted one after the other, each in a column of its own.
  rw [countDegrees, countDegree_counted (hle _)]
  simp only [bind, Except.bind]
  rw [countDegree_counted (hle _)]
  simp only
  rw [countDegree_counted (hle _)]
  congr 3
  funext kind
  cases kind <;> simp [hcounts]

/-- The first pass counts all nodes without a failure. The induction is on the nodes from behind,
with `countDegrees_counted` as its step. -/
theorem foldlM_countDegrees {M : Nat} (hM : ∀ node ∈ nodes, node.greatestDegree ≤ M) :
    nodes.foldlM countDegrees ((List.range' 0 (M + 1)).map DegreeRow.blank)
      = .ok ((List.range' 0 (M + 1)).map (countedRow (countsOf nodes))) := by
  induction nodes using List.reverseRecOn with
  | nil => rfl
  | append_singleton front node ih =>
    rw [List.foldlM_append, ih fun other hother => hM other (List.mem_append_left _ hother)]
    have hstep := countDegrees_counted (hM node List.mem_concat_self) front
    simp only [bind, Except.bind, List.foldlM_cons, List.foldlM_nil, hstep]
    rfl

/-- What is left of the nodes at degree `d`: for each kind, those with this degree or a greater one.
It is the loop variable of the second pass. -/
def leftAt (nodes : List StrongSetNode) (d : Nat) : NodesLeft :=
  ⟨countFrom (degreesOfKind nodes .incoming) d, countFrom (degreesOfKind nodes .outgoing) d,
    countFrom (degreesOfKind nodes .cross) d⟩

/-- The nodes of a degree are among those that are left at it, and the others are left behind it. So
the subtraction in `NodesLeft.behind` never fails. -/
theorem behind_leftAt (nodes : List StrongSetNode) (d : Nat) :
    (leftAt nodes d).behind (countedRow (countsOf nodes) d) = .ok (leftAt nodes (d + 1)) := by
  -- Stated per kind, since all three are alike.
  have hsub : ∀ kind, Checked.sub (countFrom (degreesOfKind nodes kind) d) (countsOf nodes kind d)
      = .ok (countFrom (degreesOfKind nodes kind) (d + 1)) := by
    intro kind
    have hsplit := countOf_add_countFrom (degreesOfKind nodes kind) d
    rw [Checked.sub_of_le (by unfold countsOf; omega)]
    congr 1
    unfold countsOf
    omega
  simp only [NodesLeft.behind, leftAt, countedRow, hsub, bind, Except.bind]
  rfl

/-- A `countedRow` becomes the exact one when `withLeft` fills in what is left at its degree. -/
theorem withLeft_leftAt (nodes : List StrongSetNode) (d : Nat) :
    (countedRow (countsOf nodes) d).withLeft (leftAt nodes d) = exactDegreeRow nodes d := by
  rw [exactDegreeRow_eq]
  rfl

/-- The second pass fills every row with the nodes that are left at it. The induction is on the
number of rows, for any first degree. -/
theorem fillAtLeast_counted (nodes : List StrongSetNode) (first n : Nat) :
    fillAtLeast (leftAt nodes first) ((List.range' first n).map (countedRow (countsOf nodes)))
      = .ok ((List.range' first n).map (exactDegreeRow nodes)) := by
  induction n generalizing first with
  | zero => rfl
  | succ n ih =>
    rw [List.range'_succ, List.map_cons, fillAtLeast, behind_leftAt, List.map_cons,
      ← withLeft_leftAt]
    simp only [bind, Except.bind, ih]
    rfl

/-- Both passes together give the exact rows. The result is `.ok`, so no row is missing when it is
picked and no subtraction goes below zero. -/
theorem degreeDistributionInPlace_eq {M : Nat} (hM : IsGreatest (degreesOf nodes) M) :
    degreeDistributionInPlace nodes = .ok ((List.range (M + 1)).map (exactDegreeRow nodes)) := by
  have hleft : leftAt nodes 0 = ⟨nodes.length, nodes.length, nodes.length⟩ := by
    simp [leftAt, countFrom_zero, degreesOfKind]
  rw [degreeDistributionInPlace]
  split
  · -- Without nodes there is no greatest degree, which `hM` excludes.
    next hnone =>
    obtain ⟨node, hnode, -⟩ := hM.1
    rw [List.max?_eq_none_iff, List.map_eq_nil_iff] at hnone
    simp [hnone] at hnode
  · next greatest hsome =>
    obtain rfl := (isGreatest_of_max?_greatestDegree hsome).unique hM
    have hle : ∀ node ∈ nodes, node.greatestDegree ≤ greatest := fun node hnode =>
      (List.max?_eq_some_iff.1 hsome).2 _ (List.mem_map_of_mem hnode)
    rw [List.range_eq_range', foldlM_countDegrees hle, ← hleft]
    exact fillAtLeast_counted nodes 0 (greatest + 1)

/-! ### Eccentricities -/

/-- The row of eccentricity `v` as it should be: how many nodes have it. -/
def exactEccentricityRow (nodes : List StrongSetNode) (v : Nat) : EccentricityRow :=
  ⟨v, nodes.countP (·.eccentricity.toNat = v)⟩

/-- The set of the eccentricities of `nodes`. Its least and its greatest element are the values of
the first and of the last row. -/
def eccentricitiesOf (nodes : List StrongSetNode) : Set Nat :=
  {v | ∃ node ∈ nodes, node.eccentricity.toNat = v}

/-- The minimum that the program takes is the least element of `eccentricitiesOf`. -/
theorem min?_eccentricity_eq_some_iff {least : Nat} :
    (nodes.map (·.eccentricity.toNat)).min? = some least ↔
      IsLeast (eccentricitiesOf nodes) least := by
  rw [List.min?_eq_some_iff]
  simp [IsLeast, eccentricitiesOf, mem_lowerBounds]

/-- The maximum that the program takes is the greatest element of `eccentricitiesOf`. -/
theorem max?_eccentricity_eq_some_iff {greatest : Nat} :
    (nodes.map (·.eccentricity.toNat)).max? = some greatest ↔
      IsGreatest (eccentricitiesOf nodes) greatest := by
  rw [List.max?_eq_some_iff]
  simp [IsGreatest, eccentricitiesOf, mem_upperBounds]

section

variable {least greatest : Nat}

/-- The distribution has the exact row of each value from the least to the greatest, those of values
that do not occur included. `List.range'` lists these values. -/
theorem eccentricityDistribution_eq (hleast : IsLeast (eccentricitiesOf nodes) least)
    (hgreatest : IsGreatest (eccentricitiesOf nodes) greatest) :
    eccentricityDistribution nodes =
      (List.range' least (greatest + 1 - least)).map (exactEccentricityRow nodes) := by
  simp only [eccentricityDistribution, min?_eccentricity_eq_some_iff.2 hleast,
    max?_eccentricity_eq_some_iff.2 hgreatest, countOf, List.countP_map]
  rw [List.range'_eq_map_range, List.map_map]
  rfl

/-- A node is counted in the row of its eccentricity, and in no other. The bounds say that this row
is there. So the checked subtraction of `least` and the look-up succeed. -/
theorem countEccentricity_counted {n : Nat} {node : StrongSetNode}
    (hleast : least ≤ node.eccentricity.toNat) (hn : node.eccentricity.toNat < least + n)
    (front : List StrongSetNode) :
    countEccentricity least ((List.range' least n).map (exactEccentricityRow front)) node
      = .ok ((List.range' least n).map (exactEccentricityRow (front ++ [node]))) := by
  rw [countEccentricity, Checked.sub_of_le hleast]
  simp only [bind, Except.bind]
  refine Checked.modify_map_range' (by omega) ?_ fun v hv => ?_
  · rw [Nat.add_sub_cancel' hleast]
    simp [exactEccentricityRow]
  · have hne : node.eccentricity.toNat ≠ v := by omega
    simp [exactEccentricityRow, hne]

/-- The rows behind all nodes, counted one by one by `countEccentricity`. The induction is on the
nodes from behind. -/
theorem foldlM_countEccentricity {n : Nat}
    (hnodes : ∀ node ∈ nodes,
      least ≤ node.eccentricity.toNat ∧ node.eccentricity.toNat < least + n) :
    nodes.foldlM (countEccentricity least) ((List.range' least n).map fun v => ⟨v, 0⟩)
      = .ok ((List.range' least n).map (exactEccentricityRow nodes)) := by
  induction nodes using List.reverseRecOn with
  | nil => rfl
  | append_singleton front node ih =>
    obtain ⟨hleast, hn⟩ := hnodes node List.mem_concat_self
    have hstep := countEccentricity_counted hleast hn front
    rw [List.foldlM_append, ih fun other hother => hnodes other (List.mem_append_left _ hother)]
    simp only [bind, Except.bind, List.foldlM_cons, List.foldlM_nil, hstep]
    rfl

/-- The loop over rows that are picked by their place gives the same rows, and none is missing when
it is picked. `.ok` says this. -/
theorem eccentricityDistributionInPlace_eq (hleast : IsLeast (eccentricitiesOf nodes) least)
    (hgreatest : IsGreatest (eccentricitiesOf nodes) greatest) :
    eccentricityDistributionInPlace nodes =
      .ok ((List.range' least (greatest + 1 - least)).map (exactEccentricityRow nodes)) := by
  simp only [eccentricityDistributionInPlace, min?_eccentricity_eq_some_iff.2 hleast,
    max?_eccentricity_eq_some_iff.2 hgreatest]
  refine foldlM_countEccentricity fun node hnode => ?_
  have hmem : node.eccentricity.toNat ∈ eccentricitiesOf nodes := ⟨node, hnode, rfl⟩
  have hlower := hleast.2 hmem
  have hupper := hgreatest.2 hmem
  omega

/-- The counts of `n` neighbouring values and those from there on make up the counts from the first
of them. It is the sum of `countOf_add_countFrom` over these values. -/
theorem sum_countOf_add_countFrom (values : List Nat) (first n : Nat) :
    ((List.range' first n).map (countOf values)).sum + countFrom values (first + n)
      = countFrom values first := by
  induction n generalizing first with
  | zero => simp
  | succ n ih =>
    have hrest := ih (first + 1)
    have hsplit := countOf_add_countFrom values first
    rw [Nat.add_right_comm, Nat.add_assoc first n 1] at hrest
    rw [List.range'_succ, List.map_cons, List.sum_cons]
    omega

/-- Every node is counted once, so the counts add up to the number of nodes. None is below the first
row or above the last, as these are `IsLeast` and `IsGreatest`. -/
theorem sum_count_exactEccentricityRow (hleast : IsLeast (eccentricitiesOf nodes) least)
    (hgreatest : IsGreatest (eccentricitiesOf nodes) greatest) :
    (((List.range' least (greatest + 1 - least)).map (exactEccentricityRow nodes)).map
      (·.count)).sum = nodes.length := by
  have hsum := sum_countOf_add_countFrom (nodes.map (·.eccentricity.toNat)) least
    (greatest + 1 - least)
  have hle : least ≤ greatest := hleast.2 hgreatest.1
  -- All nodes are at the least eccentricity or above it, and none is above the greatest.
  have hall : countFrom (nodes.map (·.eccentricity.toNat)) least = nodes.length := by
    rw [countFrom, List.countP_map, List.countP_eq_length]
    intro node hnode
    exact decide_eq_true (hleast.2 ⟨node, hnode, rfl⟩)
  have hnone : countFrom (nodes.map (·.eccentricity.toNat)) (least + (greatest + 1 - least))
      = 0 := by
    rw [countFrom, List.countP_map, List.countP_eq_zero]
    intro node hnode
    have hupper := hgreatest.2 ⟨node, hnode, rfl⟩
    simp only [Function.comp_apply, decide_eq_true_eq]
    omega
  rw [hall, hnone, Nat.add_zero] at hsum
  rw [List.map_map, ← hsum]
  congr 2
  funext v
  rw [countOf, List.countP_map]
  rfl

end

/-! ### Both distributions -/

/-- Nodes that are there have a greatest degree. `degreesOf` is not empty then, and the list of all
degrees has a maximum. -/
theorem exists_isGreatest_degreesOf (h : nodes ≠ []) : ∃ M, IsGreatest (degreesOf nodes) M := by
  obtain ⟨node, rest, rfl⟩ := List.exists_cons_of_ne_nil h
  exact ⟨_, isGreatest_of_max?_greatestDegree List.max?_cons'⟩

/-- Nodes that are there have a least and a greatest eccentricity, too, for the same reason. -/
theorem exists_eccentricity_bounds (h : nodes ≠ []) : ∃ least greatest,
    IsLeast (eccentricitiesOf nodes) least ∧ IsGreatest (eccentricitiesOf nodes) greatest := by
  obtain ⟨node, rest, rfl⟩ := List.exists_cons_of_ne_nil h
  exact ⟨_, _, min?_eccentricity_eq_some_iff.1 List.min?_cons',
    max?_eccentricity_eq_some_iff.1 List.max?_cons'⟩

/-- What the distributions of some nodes are. Without nodes both of them are empty. The last two
fields say that `degreeDistributionInPlace` and `eccentricityDistributionInPlace` agree with
them. -/
structure ExactDistributions (nodes : List StrongSetNode) : Prop where
  /-- There is a row for each degree up to the greatest of all. -/
  degrees : nodes = [] ∧ degreeDistribution nodes = [] ∨
    ∃ M, IsGreatest (degreesOf nodes) M ∧
      degreeDistribution nodes = (List.range (M + 1)).map (exactDegreeRow nodes)
  /-- There is a row for each value between the least and the greatest eccentricity. -/
  eccentricities : nodes = [] ∧ eccentricityDistribution nodes = [] ∨
    ∃ least greatest, IsLeast (eccentricitiesOf nodes) least ∧
      IsGreatest (eccentricitiesOf nodes) greatest ∧
      eccentricityDistribution nodes =
        (List.range' least (greatest + 1 - least)).map (exactEccentricityRow nodes)
  /-- Every node is counted by its eccentricity. -/
  sum : ((eccentricityDistribution nodes).map (·.count)).sum = nodes.length
  /-- Every row is there when it is picked, and there are always as many nodes as are taken off. -/
  degreesChecked : degreeDistributionInPlace nodes = .ok (degreeDistribution nodes)
  eccentricitiesChecked :
    eccentricityDistributionInPlace nodes = .ok (eccentricityDistribution nodes)

/-- The distributions of any nodes are `ExactDistributions`. The cases are those of the structure:
no nodes, or bounds that exist. -/
theorem distributions_exact (nodes : List StrongSetNode) : ExactDistributions nodes := by
  rcases eq_or_ne nodes [] with rfl | hne
  · exact ⟨.inl ⟨rfl, rfl⟩, .inl ⟨rfl, rfl⟩, rfl, rfl, rfl⟩
  obtain ⟨M, hM⟩ := exists_isGreatest_degreesOf hne
  obtain ⟨least, greatest, hleast, hgreatest⟩ := exists_eccentricity_bounds hne
  have hdegrees := degreeDistribution_eq hM
  have heccentricities := eccentricityDistribution_eq hleast hgreatest
  exact {
    degrees := .inr ⟨M, hM, hdegrees⟩
    eccentricities := .inr ⟨least, greatest, hleast, hgreatest, heccentricities⟩
    sum := by rw [heccentricities, sum_count_exactEccentricityRow hleast hgreatest]
    degreesChecked := by rw [hdegrees, degreeDistributionInPlace_eq hM]
    eccentricitiesChecked := by
      rw [heccentricities, eccentricityDistributionInPlace_eq hleast hgreatest] }

/-- Two keys whose degrees end at different rows, and whose eccentricities leave one out. -/
example :
    let a : StrongSetNode := ⟨⟨"AA", by decide⟩, ⟨0⟩, 0, 2, 0, 3, ⟨0⟩, ⟨0⟩, ⟨0⟩⟩
    let b : StrongSetNode := ⟨⟨"BB", by decide⟩, ⟨0⟩, 1, 0, 0, 5, ⟨0⟩, ⟨0⟩, ⟨0⟩⟩
    degreeDistributionInPlace [a, b] =
        .ok [⟨0, ⟨1, 2⟩, ⟨1, 2⟩, ⟨2, 2⟩⟩, ⟨1, ⟨1, 1⟩, ⟨0, 1⟩, ⟨0, 0⟩⟩,
          ⟨2, ⟨0, 0⟩, ⟨1, 1⟩, ⟨0, 0⟩⟩] ∧
      eccentricityDistributionInPlace [a, b] = .ok [⟨3, 1⟩, ⟨4, 0⟩, ⟨5, 1⟩] := by
  decide +kernel

end WebOfTrust
