import Mathlib.Data.List.Perm.Basic
import WebOfTrust.Proofs.Promotion

/-!
# `WebOfTrust.Proofs.DistinctKeys`: the second pass over blocks of different keys

The second pass goes by what it has written already, which it needs to know to tell the further
blocks of a key from its first one. If no key has two blocks, it never comes to that. Then what
becomes of a block is a matter of that block and the interesting keys, and neither the blocks that
are kept nor their counts depend on the order, but for the order in which they are written.

- `keptBlocks_eq_filterMap`: blocks of different keys are kept one by one;
- `foldl_take_of_perm`: the trusted keys and the counts do not depend on the order of the blocks;
- `refine_blockCounts`: the counts of a second pass, by its blocks.
-/

set_option autoImplicit false

namespace WebOfTrust

variable {interesting : KeySet KeyId}

/-! ### Single blocks -/

/-- What is kept of the only block of a key: nothing if it is dropped, and what `EdgeBlock.restrict`
leaves otherwise. -/
def EdgeBlock.kept? (interesting : KeySet KeyId) (b : EdgeBlock) : Option EdgeBlock :=
  (({} : BlockPass).fate interesting b).block?

/-- What is kept of a block is a block of the same key. -/
theorem EdgeBlock.signee_of_mem_kept? {b b' : EdgeBlock} (h : b' ∈ b.kept? interesting) :
    b'.signee = b.signee := by
  obtain ⟨-, -, rfl⟩ := BlockPass.block?_fate.1 h
  rfl

namespace BlockPass

/-- The pass behind a block: `fate` decides on it, and `count` books the decision. A whole pass is a
fold of this step. -/
def take (interesting : KeySet KeyId) (p : BlockPass) (b : EdgeBlock) : BlockPass :=
  p.count (p.fate interesting b)

/-- The first block of a key has the fate of an only one, since `fate` looks at the pass only for
whether the key is trusted. -/
theorem fate_of_not_mem {p : BlockPass} {b : EdgeBlock} (h : b.signee ∉ p.trusted) :
    p.fate interesting b = ({} : BlockPass).fate interesting b := by
  have hp : ¬ p.trusted.contains b.signee = true := h
  have hnone : ¬ ({} : BlockPass).trusted.contains b.signee = true := Table.not_mem_empty b.signee
  rw [fate, fate, if_neg hp, if_neg hnone]

/-- Among blocks of different keys, none that comes behind another is of a trusted key. It is the
step of the induction in `foldl_take_eq`. -/
theorem not_mem_trusted_count {p : BlockPass} {b : EdgeBlock} {bs : List EdgeBlock}
    (hb : b.signee ∉ bs.map EdgeBlock.signee) (hnew : ∀ c ∈ b :: bs, c.signee ∉ p.trusted) :
    ∀ c ∈ bs, c.signee ∉ (p.count (({} : BlockPass).fate interesting b)).trusted := by
  intro c hc
  rw [mem_trusted_count]
  rintro (hmem | ⟨b', hb', hsignee⟩)
  · exact hnew c (List.mem_cons_of_mem _ hc) hmem
  · -- The key that has come to be trusted is that of the block.
    rw [EdgeBlock.signee_of_mem_kept? hb'] at hsignee
    exact hb (hsignee ▸ List.mem_map_of_mem hc)

/-- The order in which two blocks are counted does not matter. The counts are added up, and trusted
keys are collected in a set. -/
theorem count_comm (p : BlockPass) (f g : BlockFate) :
    (p.count f).count g = (p.count g).count f := by
  have htrusted : ∀ (s : KeySet KeyId) (a b : KeyId), (s.add a).add b = (s.add b).add a :=
    fun s a b => KeySet.ext_mem fun k => by simp only [KeySet.mem_add, or_left_comm]
  cases f <;> cases g <;> simp only [count, Nat.add_right_comm, htrusted]

end BlockPass

/-! ### Blocks of different keys -/

/-- If no key has two blocks and none has been written, each block has the fate of an only one. Then
`fate` does not depend on the pass any more, and the fold only counts. -/
theorem foldl_take_eq {p : BlockPass} {bs : List EdgeBlock}
    (hnodup : (bs.map EdgeBlock.signee).Nodup) (hnew : ∀ b ∈ bs, b.signee ∉ p.trusted) :
    bs.foldl (BlockPass.take interesting) p
      = bs.foldl (fun p b => p.count (({} : BlockPass).fate interesting b)) p := by
  induction bs generalizing p with
  | nil => rfl
  | cons b bs ih =>
    obtain ⟨hb, hrest⟩ := List.nodup_cons.1 hnodup
    rw [List.foldl_cons, List.foldl_cons, BlockPass.take,
      BlockPass.fate_of_not_mem (hnew b List.mem_cons_self)]
    exact ih hrest (BlockPass.not_mem_trusted_count hb hnew)

/-- Blocks of different keys are kept one by one, so what is kept of a list can be told from its
members. -/
theorem keptBlocks_eq_filterMap {p : BlockPass} {bs : List EdgeBlock}
    (hnodup : (bs.map EdgeBlock.signee).Nodup) (hnew : ∀ b ∈ bs, b.signee ∉ p.trusted) :
    keptBlocks interesting p bs = bs.filterMap (EdgeBlock.kept? interesting) := by
  induction bs generalizing p with
  | nil => rfl
  | cons b bs ih =>
    obtain ⟨hb, hrest⟩ := List.nodup_cons.1 hnodup
    rw [keptBlocks, BlockPass.fate_of_not_mem (hnew b List.mem_cons_self),
      ih hrest (BlockPass.not_mem_trusted_count hb hnew), List.filterMap_cons]
    show (b.kept? interesting).toList ++ _ = _
    cases b.kept? interesting <;> rfl

/-- Among them, the order does not matter for the keys that are trusted and for the counts, by
`foldl_take_eq` and `count_comm`. -/
theorem foldl_take_of_perm {bs bs' : List EdgeBlock} (hnodup : (bs.map EdgeBlock.signee).Nodup)
    (hperm : bs.Perm bs') :
    bs'.foldl (BlockPass.take interesting) {} = bs.foldl (BlockPass.take interesting) {} := by
  have hcomm : RightCommutative fun (p : BlockPass) (b : EdgeBlock) =>
      p.count (({} : BlockPass).fate interesting b) :=
    ⟨fun p _ _ => p.count_comm _ _⟩
  rw [foldl_take_eq hnodup fun _ _ => Table.not_mem_empty _,
    foldl_take_eq ((hperm.map EdgeBlock.signee).nodup hnodup) fun _ _ => Table.not_mem_empty _,
    hperm.foldl_eq]

/-! ### The pass -/

/-- Where all blocks can be read, the result of the loop over them is a fold of `BlockPass.take`.
The counts are read off it. -/
theorem refineBlocks_result {p p' : BlockPass} {out : Artifacts} {bs : List EdgeBlock}
    (h : (refineBlocks interesting p out (bs.map .ok)).result = .ok p') :
    p' = bs.foldl (BlockPass.take interesting) p := by
  induction bs generalizing p out with
  | nil => exact (Except.ok.inj h).symm
  | cons b bs ih =>
    cases hw : (p.fate interesting b).write out with
    | error e => simp [refineBlocks, hw] at h
    | ok out' =>
      simp only [List.map_cons, refineBlocks, hw] at h
      exact ih h

/-- The counts of a second pass are those of its blocks, but for two of them: `certified` comes from
the table and `policyUris` from the first pass. -/
theorem refine_blockCounts {first : FirstPass} {corpus status : Source} {out : Artifacts}
    {counts : Refinement} {bs : List EdgeBlock}
    (h : (refine first corpus status out).result = .ok counts)
    (hbs : Corpus.blocks readingRawCorpus corpus = bs.map .ok) :
    counts = { (bs.foldl (BlockPass.take first.interesting) {}).counts with
      certified := counts.certified, policyUris := counts.policyUris } := by
  obtain ⟨p, n, hp, -, -, rfl⟩ := refine_stages h
  rw [refineCorpus, hbs] at hp
  rw [← refineBlocks_result hp]

/-- A line is promoted by the blocks, in whichever order they come: it looks for some block with its
key. -/
theorem StatusLine.promotedBy_of_perm {blocks blocks' : List EdgeBlock}
    (h : blocks.Perm blocks') : promotedBy blocks' = promotedBy blocks := by
  funext l
  simp only [promotedBy, h.mem_iff]

end WebOfTrust
