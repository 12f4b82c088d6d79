import WebOfTrust.Proofs.CanonicalCorpus
import WebOfTrust.Proofs.DistinctKeys
import WebOfTrust.Proofs.Policies

/-!
# `WebOfTrust.Proofs.BlockCounts`: the counts of a second pass

The second pass counts as it goes along, and it counts what it does with each block, not what has
come of it in the end. The counts and the blocks agree all the same: blocks and certifications
written are those of the corpus, and of the raw blocks every one is counted once, whatever becomes
of it.

- `BlockPass.accounted_take`, `accounted_foldl_take`: no block is lost or counted twice;
- `counts_foldl_take`: what is counted as written is what is kept;
- `Passed.counts_eq`, `Passed.blockCounts`: the counts of both passes, by the raw corpus and by the
  final one.
-/

set_option autoImplicit false

namespace WebOfTrust

variable {interesting : KeySet KeyId}

/-! ### Blocks by their fates -/

/-- The blocks that are counted, whatever has become of them: written, dropped or left out as
duplicates. It is compared with the number of blocks that were read. -/
def Refinement.accounted (counts : Refinement) : Nat :=
  counts.edgeBlocks + counts.droppedBlocks + counts.duplicateBlocks

/-- Each block has one of the three fates, and is counted under it once. `BlockPass.count` adds one
to exactly one of the three fields. -/
theorem BlockPass.accounted_take (p : BlockPass) (b : EdgeBlock) :
    (p.take interesting b).counts.accounted = p.counts.accounted + 1 := by
  rw [take]
  cases p.fate interesting b <;> simp only [count, Refinement.accounted] <;> omega

/-- So a pass accounts for all its blocks, by induction on them. The bound `p` is general, as the
induction starts from a pass that has counted already. -/
theorem accounted_foldl_take (interesting : KeySet KeyId) (p : BlockPass) (bs : List EdgeBlock) :
    (bs.foldl (BlockPass.take interesting) p).counts.accounted
      = p.counts.accounted + bs.length := by
  induction bs generalizing p with
  | nil => rfl
  | cons b bs ih =>
    rw [List.foldl_cons, ih, BlockPass.accounted_take, List.length_cons, Nat.add_assoc,
      Nat.add_comm 1]

/-! ### Blocks that are written -/

/-- The certifications that are counted are those of the blocks that are written. A fate that writes
nothing has no `block?`, and nothing to add. -/
theorem BlockPass.certifications_count (p : BlockPass) (fate : BlockFate) :
    (p.count fate).counts.certifications
      = p.counts.certifications + (Corpus.edges fate.block?.toList).length := by
  cases fate with
  | duplicate | dropped => rfl
  | written b => simp [count, BlockFate.block?, Corpus.edges]

/-- What a pass counts as written is what it keeps, blocks and certifications alike. The induction
follows `keptBlocks`. `blockCounts` is this for a pass from its beginning. -/
theorem counts_foldl_take (interesting : KeySet KeyId) (p : BlockPass) (bs : List EdgeBlock) :
    (bs.foldl (BlockPass.take interesting) p).counts.edgeBlocks
        = p.counts.edgeBlocks + (keptBlocks interesting p bs).length ∧
      (bs.foldl (BlockPass.take interesting) p).counts.certifications
        = p.counts.certifications + (Corpus.edges (keptBlocks interesting p bs)).length := by
  induction bs generalizing p with
  | nil => exact ⟨rfl, rfl⟩
  | cons b bs ih =>
    obtain ⟨hblocks, hcertifications⟩ := ih (p.take interesting b)
    rw [List.foldl_cons, hblocks, hcertifications, keptBlocks, List.length_append,
      Corpus.edges_append, List.length_append, BlockPass.take, BlockPass.edgeBlocks_count,
      BlockPass.certifications_count, Nat.add_assoc, Nat.add_assoc]
    exact ⟨rfl, rfl⟩

/-! ### Both passes -/

namespace Passed

variable {settings : ResolutionSettings} {dump : Source} {items : List (Nat × Dump.Record)}
  {keys : List CommittedKey} {blocks : List EdgeBlock} {p : Resolution}

/-- The second pass reads the blocks of the keys, and counts by them. The two counts that are not of
blocks come from the table and from the first pass. It is `refine_blockCounts` for the texts that
the first pass has written. -/
theorem counts_eq (h : Passed settings items keys blocks p)
    (hpasses : bothPasses settings dump = .ok p) :
    p.counts = { (((edgeBlocks keys).map EdgeBlock.reread).foldl
        (BlockPass.take p.first.interesting) {}).counts with
      certified := (statusLines keys).countP fun l => l.promotedBy blocks ≠ l
      policyUris := (p.first.policyUris.retainIssuers p.first.interesting).size } := by
  have hcounts := (passes_of_bothPasses hpasses).2.2.1
  have hread : Corpus.blocks readingRawCorpus (.ofString p.raw.corpus.text)
      = ((edgeBlocks keys).map EdgeBlock.reread).map .ok := by
    rw [h.resolved.corpus]
    exact Corpus.blocks_render readingRawCorpus h.blocks
  have hblocks := refine_blockCounts hcounts hread
  rwa [h.refined.certified, (refine_policies hcounts).2] at hblocks

/-- The raw blocks of a dump are written, or they are counted as dropped or as duplicates, and those
that are written make up the final corpus. The report of an analysis is compared with these numbers
in `analysis_accounts`. -/
theorem blockCounts (h : Passed settings items keys blocks p)
    (hpasses : bothPasses settings dump = .ok p) :
    p.counts.edgeBlocks = blocks.length ∧
      p.counts.certifications = (Corpus.edges blocks).length ∧
      p.counts.accounted = (edgeBlocks keys).length := by
  obtain ⟨hblocks, hcertifications⟩ := counts_foldl_take p.first.interesting {}
    ((edgeBlocks keys).map EdgeBlock.reread)
  have haccounted := accounted_foldl_take p.first.interesting {}
    ((edgeBlocks keys).map EdgeBlock.reread)
  rw [← h.refined.kept, Nat.zero_add] at hblocks hcertifications
  rw [List.length_map] at haccounted
  rw [h.counts_eq hpasses]
  exact ⟨hblocks, hcertifications, haccounted.trans (Nat.zero_add _)⟩

end Passed

end WebOfTrust
