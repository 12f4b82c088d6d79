import Mathlib.Data.List.Perm.Basic
import WebOfTrust.StrongSet.Clustering

/-!
# `WebOfTrust.Proofs.StrongSet.Chunks`: coefficients that arrive in chunks

The workers share out the nodes in chunks, and the chunks of the result arrive in any order. Each
one is stored at its own place. What is stored anywhere is what belongs there, so that it does not
matter which chunk comes last, and every place gets something.

- `CoefficientChunk.PartOf`: what makes a chunk one of a result;
- `collectCoefficients_eq`: chunks of a result, in any order, of which each place is in one;
- `collectCoefficients_of_perm`, `clusteringCoefficientsInChunks_eq`: the coefficients for any
  number of workers;
- `flatMap_nodes_clusteringChunks`: the chunks one behind the other are the nodes, each of them
  once;
- `Arrives`, `clustering_of_any_arrival`: the runs of the workers, and what they all come to.
-/

set_option autoImplicit false

namespace WebOfTrust

namespace StrongSetGraph

/-! ### Chunks of a result -/

namespace CoefficientChunk

variable {c : CoefficientChunk} {coefficients out : List Coefficient}

/-- Whether the chunk has the coefficient of the node `i`. -/
def Covers (c : CoefficientChunk) (i : Nat) : Prop :=
  c.start ≤ i ∧ i < c.start + c.values.length

/-- Whether a chunk covers a node is a matter of two comparisons, so `Covers` can stand in an
`if`. -/
instance (c : CoefficientChunk) (i : Nat) : Decidable (c.Covers i) :=
  inferInstanceAs (Decidable (_ ∧ _))

/-- The chunk holds what `coefficients` has at its place. Then it may be stored at any time, and
even more than once. -/
structure PartOf (c : CoefficientChunk) (coefficients : List Coefficient) : Prop where
  /-- It does not stand out at the end. -/
  bound : c.start + c.values.length ≤ coefficients.length
  /-- Its values are those of the nodes that it covers. -/
  values : ∀ i, c.Covers i → c.values[i - c.start]? = coefficients[i]?

/-- To store a chunk within the bounds leaves the length of the list as it is. `store` cuts out as
many places as it fills. -/
theorem length_store (h : c.start + c.values.length ≤ out.length) :
    (c.store out).length = out.length := by
  simp only [store, List.length_append, List.length_take, List.length_drop]
  omega

/-- After `store`, the places that the chunk covers have its values, and all other places what they
had before. -/
theorem getElem?_store (h : c.start + c.values.length ≤ out.length) (i : Nat) :
    (c.store out)[i]? = if c.Covers i then c.values[i - c.start]? else out[i]? := by
  have hstart : (out.take c.start).length = c.start := by
    rw [List.length_take]
    omega
  rw [store, List.append_assoc, List.getElem?_append, hstart, List.getElem?_append,
    List.getElem?_take,
    List.getElem?_drop]
  -- A place lies in front of the chunk, in it, or behind it.
  by_cases hlow : i < c.start
  · rw [if_pos hlow, if_pos hlow, if_neg fun hc : c.Covers i => absurd hc.1 (by omega)]
  rw [if_neg hlow]
  by_cases hhigh : i - c.start < c.values.length
  · rw [if_pos hhigh, if_pos ⟨by omega, by omega⟩]
  · rw [if_neg hhigh, if_neg fun hc : c.Covers i => hhigh (by have := hc.2; omega)]
    congr 1
    omega

end CoefficientChunk

open CoefficientChunk

variable {coefficients : List Coefficient} {chunks : List CoefficientChunk}

/-- Behind chunks of a result, the places that they cover are right and the others are as they were.
It does not matter if chunks overlap, as they agree where they do. `PartOf` says that each of them
agrees with `coefficients`. -/
theorem foldl_store {out : List Coefficient} (hparts : ∀ c ∈ chunks, c.PartOf coefficients)
    (hlength : out.length = coefficients.length) :
    (chunks.foldl store out).length = coefficients.length ∧
      ∀ i, (chunks.foldl store out)[i]?
        = if ∃ c ∈ chunks, c.Covers i then coefficients[i]? else out[i]? := by
  induction chunks generalizing out with
  | nil => exact ⟨hlength, by simp⟩
  | cons c chunks ih =>
    have hc := hparts c List.mem_cons_self
    have hbound : c.start + c.values.length ≤ out.length := hlength ▸ hc.bound
    obtain ⟨hlength', hvalues⟩ := ih (fun d hd => hparts d (List.mem_cons_of_mem c hd))
      ((length_store hbound).trans hlength)
    refine ⟨hlength', fun i => ?_⟩
    rw [List.foldl_cons, hvalues, getElem?_store hbound]
    by_cases hlater : ∃ d ∈ chunks, d.Covers i
    · -- A later chunk covers the place again, with the same coefficient.
      rw [if_pos hlater, if_pos (hlater.imp fun d hd => ⟨List.mem_cons_of_mem c hd.1, hd.2⟩)]
    · have hiff : (∃ d ∈ c :: chunks, d.Covers i) ↔ c.Covers i := by
        rw [List.exists_mem_cons_iff]
        exact or_iff_left hlater
      rw [if_neg hlater]
      simp only [hiff]
      split
      · next hcovers => exact hc.values i hcovers
      · rfl

/-- Chunks of a result make up the result, in whichever order they come, if they cover it. It is
`foldl_store` with every place covered. -/
theorem collectCoefficients_eq (hparts : ∀ c ∈ chunks, c.PartOf coefficients)
    (hcover : ∀ i, i < coefficients.length → ∃ c ∈ chunks, c.Covers i) :
    collectCoefficients coefficients.length chunks = coefficients := by
  have hstart : (List.replicate coefficients.length (Coefficient.ratio 0 1)).length
      = coefficients.length := List.length_replicate
  obtain ⟨hlength, hvalues⟩ := foldl_store hparts hstart
  refine List.ext_getElem? fun i => ?_
  by_cases hi : i < coefficients.length
  · rw [collectCoefficients, hvalues, if_pos (hcover i hi)]
  · rw [collectCoefficients, List.getElem?_eq_none (by omega), List.getElem?_eq_none (by omega)]

/-! ### The chunks of the workers -/

/-- No chunk size is zero, even for an empty graph or without workers, so division by it is fine. It
is a `max` with one. -/
theorem chunkSize_pos (n workers : Nat) : 0 < chunkSize n workers := by
  rw [chunkSize]
  omega

variable {g : StrongSetGraph} {workers : Nat}

/-- The sequential loop gives a coefficient for each node of the graph. -/
theorem length_clusteringCoefficients (g : StrongSetGraph) :
    g.clusteringCoefficients.length = g.size := by
  rw [clusteringCoefficients, List.length_map, List.length_range]

/-- The `i`th of the coefficients is `localCoefficient` of node `i`. -/
theorem getElem?_clusteringCoefficients (g : StrongSetGraph) {i : Nat} (hi : i < g.size) :
    g.clusteringCoefficients[i]? = some (g.localCoefficient i) := by
  rw [clusteringCoefficients, List.getElem?_map, List.getElem?_range hi, Option.map_some]

/-- A chunk begins at a node, so that none of them is empty or out of bounds. The left side is how
their number is computed, by a division that is rounded up. On the right, `k * chunk` is where chunk
`k` begins. -/
theorem lt_chunkCount_iff {n chunk : Nat} (hchunk : 0 < chunk) (k : Nat) :
    k < (n + chunk - 1) / chunk ↔ k * chunk < n := by
  rw [Nat.lt_iff_add_one_le, Nat.le_div_iff_mul_le hchunk, Nat.add_mul, Nat.one_mul]
  omega

/-- The chunk with the number `k`, of `chunk` nodes or up to the last one. -/
theorem mem_clusteringChunks_iff {c : CoefficientChunk} : c ∈ g.clusteringChunks workers ↔
    ∃ k, k * chunkSize g.size workers < g.size ∧
      c = ⟨k * chunkSize g.size workers,
        (List.range (min (k * chunkSize g.size workers + chunkSize g.size workers) g.size
          - k * chunkSize g.size workers)).map fun i =>
            g.localCoefficient (k * chunkSize g.size workers + i)⟩ := by
  simp only [clusteringChunks, List.mem_map, List.mem_range,
    lt_chunkCount_iff (chunkSize_pos g.size workers), eq_comm]

/-- Each chunk of the workers is part of the list of all coefficients: it lies within its bounds and
agrees with it where it covers it. -/
theorem partOf_of_mem_clusteringChunks {c : CoefficientChunk}
    (hc : c ∈ g.clusteringChunks workers) :
    c.PartOf g.clusteringCoefficients := by
  obtain ⟨k, hk, rfl⟩ := mem_clusteringChunks_iff.1 hc
  generalize k * chunkSize g.size workers = start at hk ⊢
  refine ⟨?_, fun i hi => ?_⟩
  · simp only [List.length_map, List.length_range, length_clusteringCoefficients]
    omega
  · simp only [Covers, List.length_map, List.length_range] at hi
    -- A place in the list, less where the chunk starts, is a place in the chunk.
    have hplace : start + (i - start) = i := by omega
    show (List.map _ _)[i - start]? = _
    rw [getElem?_clusteringCoefficients g (by omega), List.getElem?_map,
      List.getElem?_range (by omega), Option.map_some, hplace]

/-- The node `i` is in the chunk with the number `i / chunk`, so all nodes are covered. -/
theorem exists_covers_clusteringChunks {i : Nat} (hi : i < g.size) :
    ∃ c ∈ g.clusteringChunks workers, c.Covers i := by
  have hlow := Nat.div_mul_le_self i (chunkSize g.size workers)
  have hhigh := Nat.lt_div_mul_add (a := i) (chunkSize_pos g.size workers)
  refine ⟨_, mem_clusteringChunks_iff.2 ⟨i / chunkSize g.size workers, by omega, rfl⟩, hlow, ?_⟩
  simp only [List.length_map, List.length_range]
  omega

/-- The coefficients do not depend on the order in which the chunks arrive. Any permutation of them
covers the same places. -/
theorem collectCoefficients_of_perm (h : chunks.Perm (g.clusteringChunks workers)) :
    collectCoefficients g.size chunks = g.clusteringCoefficients := by
  rw [← length_clusteringCoefficients]
  refine collectCoefficients_eq (fun c hc => partOf_of_mem_clusteringChunks (h.mem_iff.1 hc))
    fun i hi => ?_
  rw [length_clusteringCoefficients] at hi
  obtain ⟨c, hc, hcovers⟩ := exists_covers_clusteringChunks hi
  exact ⟨c, h.mem_iff.2 hc, hcovers⟩

/-- Nor do they depend on the number of workers: the model of the parallel loop computes what the
sequential one does. It is the case of `collectCoefficients_of_perm` without a permutation. -/
theorem clusteringCoefficientsInChunks_eq (g : StrongSetGraph) (workers : Nat) :
    g.clusteringCoefficientsInChunks workers = g.clusteringCoefficients :=
  collectCoefficients_of_perm (.refl _)

/-! ### The nodes of the chunks -/

/-- The nodes whose coefficients a chunk has: as many as it has values, from `start` on. -/
def CoefficientChunk.nodes (c : CoefficientChunk) : List Nat := List.range' c.start c.values.length

/-- Chunks of one size, each cut off at `n`, up to the one with the number `count`. The induction is
on `count`. -/
theorem flatMap_range'_chunks (n chunk count : Nat) :
    (List.range count).flatMap
        (fun k => List.range' (k * chunk) (min (k * chunk + chunk) n - k * chunk))
      = List.range (min (count * chunk) n) := by
  induction count with
  | zero => simp
  | succ count ih =>
    have hnext : (count + 1) * chunk = count * chunk + chunk := Nat.succ_mul count chunk
    rw [List.range_succ, List.flatMap_append, List.flatMap_singleton, ih, hnext]
    generalize count * chunk = start
    by_cases hstart : start ≤ n
    · have hsum : min (start + chunk) n = start + (min (start + chunk) n - start) := by omega
      rw [Nat.min_eq_left hstart, hsum, Nat.add_sub_cancel_left, List.range_eq_range',
        List.range_eq_range', ← List.range'_append_1, Nat.zero_add]
    · -- The nodes have come to an end in an earlier chunk.
      have hlast : min (start + chunk) n = min start n := by omega
      have hnone : min start n - start = 0 := by omega
      rw [hlast, hnone, List.range'_zero, List.append_nil]

/-- The chunks one behind the other are the nodes, from the first to the last one. So no node is
computed by two workers. `List.range` has every number once. -/
theorem flatMap_nodes_clusteringChunks (g : StrongSetGraph) (workers : Nat) :
    (g.clusteringChunks workers).flatMap CoefficientChunk.nodes = List.range g.size := by
  have hpos := chunkSize_pos g.size workers
  have hall : min ((g.size + chunkSize g.size workers - 1) / chunkSize g.size workers
      * chunkSize g.size workers) g.size = g.size := by
    refine Nat.min_eq_right (Nat.le_of_not_lt fun hlt => ?_)
    exact Nat.lt_irrefl _ ((lt_chunkCount_iff hpos _).2 hlt)
  simp only [clusteringChunks, List.flatMap_map, CoefficientChunk.nodes, List.length_map,
    List.length_range]
  rw [flatMap_range'_chunks, hall]

/-- The values of a chunk are the coefficients of its `nodes`, each at its place. -/
theorem values_of_mem_clusteringChunks {c : CoefficientChunk}
    (hc : c ∈ g.clusteringChunks workers) : c.values = c.nodes.map g.localCoefficient := by
  obtain ⟨k, -, rfl⟩ := mem_clusteringChunks_iff.1 hc
  simp [CoefficientChunk.nodes, List.range'_eq_map_range]

/-! ### The runs of the workers -/

/-- `Arrives chunks out result`: the workers owe `chunks`, `out` holds what has come in so far, and
it becomes `result`. Any of the workers can be the next one to be done. -/
inductive Arrives : List CoefficientChunk → List Coefficient → List Coefficient → Prop where
  /-- No chunk is owed any more. -/
  | done (out : List Coefficient) : Arrives [] out out
  /-- A worker is done with a chunk, which is stored. -/
  | next {before after : List CoefficientChunk} {c : CoefficientChunk}
      {out result : List Coefficient} :
      Arrives (before ++ after) (c.store out) result → Arrives (before ++ c :: after) out result

/-- A run is an order of the chunks. One direction is an induction on the run, the other one on the
order. So statements about all runs of `Arrives` are statements about all permutations. -/
theorem arrives_iff {out result : List Coefficient} : Arrives chunks out result ↔
    ∃ order : List CoefficientChunk, order.Perm chunks ∧ order.foldl store out = result := by
  constructor
  · intro h
    induction h with
    | done out => exact ⟨[], .refl _, rfl⟩
    | @next before after c out result _ ih =>
      obtain ⟨order, hperm, hresult⟩ := ih
      exact ⟨c :: order, (hperm.cons c).trans List.perm_middle.symm, hresult⟩
  · rintro ⟨order, hperm, rfl⟩
    induction order generalizing chunks out with
    | nil =>
      obtain rfl := hperm.nil_eq
      exact .done out
    | cons c order ih =>
      -- The chunk that comes first stands somewhere among those that are owed.
      obtain ⟨before, after, rfl⟩ := List.append_of_mem (hperm.mem_iff.1 List.mem_cons_self)
      exact .next (ih (List.Perm.cons_inv (hperm.trans List.perm_middle)))

/-- For any number of workers, no node is in two chunks and each of them is in one, with its own
coefficient, and whichever worker is done at what time, the result is the list of the coefficients
of all nodes. The last two parts are about `Arrives`: every run ends with this list, and there is
one. -/
theorem clustering_of_any_arrival (g : StrongSetGraph) (workers : Nat) :
    (g.clusteringChunks workers).flatMap CoefficientChunk.nodes = List.range g.size ∧
      (∀ c ∈ g.clusteringChunks workers, c.values = c.nodes.map g.localCoefficient) ∧
      (∀ result, Arrives (g.clusteringChunks workers) (.replicate g.size (.ratio 0 1)) result ↔
        result = g.clusteringCoefficients) ∧
      g.clusteringCoefficientsInChunks workers = g.clusteringCoefficients := by
  refine ⟨flatMap_nodes_clusteringChunks g workers, fun c => values_of_mem_clusteringChunks,
    fun result => ?_, clusteringCoefficientsInChunks_eq g workers⟩
  rw [arrives_iff]
  constructor
  · rintro ⟨order, hperm, rfl⟩
    exact collectCoefficients_of_perm hperm
  · rintro rfl
    exact ⟨g.clusteringChunks workers, .refl _, clusteringCoefficientsInChunks_eq g workers⟩

end StrongSetGraph

end WebOfTrust
