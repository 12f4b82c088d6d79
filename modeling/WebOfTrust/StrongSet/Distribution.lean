import WebOfTrust.StrongSet.Graph

/-!
# `WebOfTrust.StrongSet.Distribution`: how degrees and eccentricities are spread

The degree distribution has a row for each degree from zero to the greatest, with the number of
nodes of that degree and of at least that degree. The eccentricity distribution has a row for each
value between the least and the greatest.
-/

set_option autoImplicit false

namespace WebOfTrust

/-- Numbers of nodes, for one kind of degree. `DegreeRow` has three of them. -/
structure DegreeCount where
  /-- Nodes of the degree. -/
  exact : Nat
  /-- Nodes of the degree or a greater one. -/
  atLeast : Nat
  deriving DecidableEq, Repr, Inhabited

/-- The row of a degree, with the counts for the three kinds of degrees. Degrees that no node has
are listed, too. -/
structure DegreeRow where
  degree : Nat
  incoming : DegreeCount
  outgoing : DegreeCount
  cross : DegreeCount
  deriving DecidableEq, Repr, Inhabited

/-- The row of an eccentricity, with the number of nodes that have it. Values between the least and
the greatest one are listed, too. -/
structure EccentricityRow where
  eccentricity : Nat
  count : Nat
  deriving DecidableEq, Repr, Inhabited

/-- How many of `values` are `v`. -/
def countOf (values : List Nat) (v : Nat) : Nat := values.countP (· = v)

/-- The counts for the values from `first` on, `n` of them, when `remaining` values are left. -/
def survival (values : List Nat) (remaining first : Nat) : Nat → List DegreeCount
  | 0 => []
  | n + 1 =>
    let exact := countOf values first
    ⟨exact, remaining⟩ :: survival values (remaining - exact) (first + 1) n

/-- The counts for the degrees from zero to `greatest`. -/
def degreeCounts (values : List Nat) (greatest : Nat) : List DegreeCount :=
  survival values values.length 0 (greatest + 1)

/-- The degree distribution. `degreeCounts` computes one column at a time. -/
def degreeDistribution (nodes : List StrongSetNode) : List DegreeRow :=
  let incoming := nodes.map (·.inDegree.toNat)
  let outgoing := nodes.map (·.outDegree.toNat)
  let cross := nodes.map (·.crossDegree.toNat)
  match (incoming ++ outgoing ++ cross).max? with
  | none => []
  | some greatest =>
    let rows := (degreeCounts incoming greatest).zip
      ((degreeCounts outgoing greatest).zip (degreeCounts cross greatest))
    rows.mapIdx fun degree (i, o, c) => ⟨degree, i, o, c⟩

/-- The eccentricity distribution. Without nodes it is empty. -/
def eccentricityDistribution (nodes : List StrongSetNode) : List EccentricityRow :=
  let values := nodes.map (·.eccentricity.toNat)
  match values.min?, values.max? with
  | some least, some greatest =>
    (List.range (greatest + 1 - least)).map fun k =>
      ⟨least + k, countOf values (least + k)⟩
  | _, _ => []

end WebOfTrust
