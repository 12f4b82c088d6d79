import WebOfTrust.Proofs.BlockCounts
import WebOfTrust.Proofs.Handover
import WebOfTrust.Proofs.Policies

/-!
# `WebOfTrust.Proofs.FixedPoint`: the second pass over its own output

A second pass behind the second pass has nothing left to do. Among the blocks that were kept no key
comes twice, and what is left of a block stays when it is restricted again. A line that was promoted
is not valid any more, so it is not promoted again, while the keys of the blocks still are those
that it was promoted for. That the texts between come back as they were written is what the codecs
are for.

That is so of a corpus that a first pass wrote. In a corpus from elsewhere two certifications may
differ in the codes of unknown levels and in nothing else. They are written alike, and a further
pass would keep one of them.

- `keptBlocks_keptBlocks`: blocks that are kept are kept again;
- `StatusLine.promotedBy_promotedBy`: lines are promoted once;
- `refine_fixed_point`: a further pass writes what is there, and counts no more promotions, dropped
  blocks or duplicates.
-/

set_option autoImplicit false

namespace WebOfTrust

open Text

variable {interesting : KeySet KeyId}

/-! ### Blocks -/

/-- What `distinct` leaves has no repetitions. -/
theorem nodup_distinct (l : List Signature) : (distinct l).Nodup := by
  induction l with
  | nil => exact List.nodup_nil
  | cons s l ih =>
    rw [distinct, List.nodup_cons]
    exact ⟨fun hs => by simpa using (List.mem_filter.1 hs).2, ih.filter _⟩

namespace EdgeBlock

/-- What is left of a block stays, when the same keys are interesting a second time. Both
`List.filter` and `distinct` have this property, and neither undoes the other. -/
theorem restrict_restrict (b : EdgeBlock) :
    (b.restrict interesting).restrict interesting = b.restrict interesting := by
  have hall : (b.restrict interesting).entries.filter (fun s => interesting.contains s.issuer)
      = (b.restrict interesting).entries :=
    List.filter_eq_self.2 fun s hs => (mem_entries_restrict.1 hs).2
  rw [restrict, hall]
  exact congrArg (EdgeBlock.mk b.signee) (distinct_eq_self (nodup_distinct _))

/-- A block that counts still does when it has been restricted: the certification that made it count
has stayed. -/
theorem Counts.restrict {b : EdgeBlock} (h : b.Counts interesting) :
    (b.restrict interesting).Counts interesting := by
  obtain ⟨hsignee, s, hs, hissuer⟩ := h
  exact ⟨hsignee, s, mem_entries_restrict.2 ⟨hs, hissuer⟩, hissuer⟩

end EdgeBlock

/-- The blocks that are kept are kept by a further pass. They are of different keys, so none is a
duplicate, and each of them counts. -/
theorem keptBlocks_keptBlocks (p : BlockPass) (bs : List EdgeBlock) :
    keptBlocks interesting {} (keptBlocks interesting p bs) = keptBlocks interesting p bs := by
  rw [keptBlocks_eq_filterMap (nodup_signees_keptBlocks p bs) fun _ _ => Table.not_mem_empty _]
  refine (List.filterMap_congr fun b hb => ?_).trans List.filterMap_some
  obtain ⟨c, -, -, hcounts, rfl⟩ := exists_of_mem_keptBlocks hb
  exact BlockPass.block?_fate.2
    ⟨Table.not_mem_empty _, hcounts.restrict, c.restrict_restrict⟩

/-! ### Lines -/

/-- A line is promoted once. Behind it the line is not valid any more, but certified. So `certified
:= 0` is what the further pass counts. -/
theorem StatusLine.promotedBy_promotedBy (blocks : List EdgeBlock) (l : StatusLine) :
    (l.promotedBy blocks).promotedBy blocks = l.promotedBy blocks := by
  apply promotedBy_of_not_promotes
  by_cases h : l.Promotes blocks
  · rw [promotedBy_of_promotes h]
    rintro ⟨hstatus, -⟩
    cases hstatus
  · rwa [promotedBy_of_not_promotes h]

/-! ### The pass -/

variable {settings : ResolutionSettings} {items : List (Nat × Dump.Record)}
  {keys : List CommittedKey} {blocks : List EdgeBlock} {p : Resolution}

/-- Over what a second pass wrote, a further one succeeds and keeps everything. It reads the final
artifacts by `Passed.blocks_final` and the codec of the table. -/
theorem Passed.refined_final (h : Passed settings items keys blocks p) :
    ∃ counts, (refine p.first (.ofString p.final.corpus.text) (.ofString p.final.status.text)
        {}).result = .ok counts ∧
      Refined p.first blocks ((statusLines keys).map (StatusLine.promotedBy blocks)) {}
        (refine p.first (.ofString p.final.corpus.text) (.ofString p.final.status.text) {}).written
        blocks counts := by
  have hlines := h.holds_table.read
  obtain ⟨counts, hcounts⟩ : ∃ counts, (refine p.first (.ofString p.final.corpus.text)
      (.ofString p.final.status.text) {}).result = .ok counts :=
    refine_accepts Artifacts.faultless_empty (h.blocks_final readingRawCorpus) hlines
  obtain ⟨bs, ls, kept, hbs, hls, hrefined⟩ := refine_eq_ok hcounts
  obtain rfl := map_ok_inj.1 ((h.blocks_final readingRawCorpus).symm.trans hbs)
  obtain rfl := map_ok_inj.1 (hlines.symm.trans hls)
  -- Nothing is filtered out a second time.
  have hkept : kept = blocks := by
    rw [hrefined.kept, h.refined.kept, keptBlocks_keptBlocks]
  exact ⟨counts, hcounts, hkept ▸ hrefined⟩

/-- A pass that keeps all blocks as they are counts none of them as dropped or as a duplicate. The
three counts add up to the number of blocks, and the first is that number already. -/
theorem counts_of_keptBlocks_eq {first : FirstPass} {corpus status : Source} {out : Artifacts}
    {counts : Refinement} {bs : List EdgeBlock}
    (h : (refine first corpus status out).result = .ok counts)
    (hbs : Corpus.blocks readingRawCorpus corpus = bs.map .ok)
    (hkept : keptBlocks first.interesting {} bs = bs) :
    counts.edgeBlocks = bs.length ∧ counts.certifications = (Corpus.edges bs).length ∧
      counts.droppedBlocks = 0 ∧ counts.duplicateBlocks = 0 := by
  obtain ⟨hblocks, hcertifications⟩ := counts_foldl_take first.interesting {} bs
  have haccounted := accounted_foldl_take first.interesting {} bs
  rw [hkept, Nat.zero_add] at hblocks hcertifications
  rw [refine_blockCounts h hbs]
  -- The blocks that are written are as many as there are, so none is left for the other counts.
  have hrest : ∀ c : Refinement, c.accounted = 0 + bs.length → c.edgeBlocks = bs.length →
      c.droppedBlocks = 0 ∧ c.duplicateBlocks = 0 := fun c hc he => by
    rw [Refinement.accounted, he] at hc
    omega
  exact ⟨hblocks, hcertifications, hrest _ haccounted hblocks⟩

/-- Over the output of both passes, a further second pass writes what is there and has nothing to
promote or to leave out. So the final artifacts are a fixed point of the pass, byte for byte. -/
theorem refine_fixed_point {dump : Source} (hpasses : bothPasses settings dump = .ok p) :
    ∃ again, refine p.first (.ofString p.final.corpus.text) (.ofString p.final.status.text) {}
        = ⟨again, .ok { p.counts with certified := 0, droppedBlocks := 0, duplicateBlocks := 0 }⟩ ∧
      again.corpus.text = p.final.corpus.text ∧ again.status.text = p.final.status.text ∧
      again.policy.text = p.final.policy.text := by
  obtain ⟨-, -, hfirst, hfinal⟩ := passes_of_bothPasses hpasses
  obtain ⟨items, keys, blocks, -, h⟩ := bothPasses_eq_ok hpasses
  obtain ⟨counts, hcounts, hagain⟩ := h.refined_final
  obtain ⟨hblocks, hcertifications, -⟩ := h.blockCounts hpasses
  obtain ⟨hblocks', hcertifications', hdropped, hduplicate⟩ :=
    counts_of_keptBlocks_eq hcounts (h.blocks_final readingRawCorpus) hagain.kept.symm
  obtain ⟨hpolicy, hpolicies⟩ := refine_policies hfirst
  obtain ⟨hpolicy', hpolicies'⟩ := refine_policies hcounts
  rw [← hfinal] at hpolicy
  -- A line that was promoted is not promoted again.
  have hcertified : counts.certified = 0 := by
    rw [hagain.certified, List.countP_eq_zero]
    intro l hl
    obtain ⟨m, -, rfl⟩ := List.mem_map.1 hl
    simp [StatusLine.promotedBy_promotedBy]
  -- The counts agree field by field.
  have heq : counts
      = { p.counts with certified := 0, droppedBlocks := 0, duplicateBlocks := 0 } := by
    obtain ⟨_, _, _, _, _, _⟩ := counts
    simp only [Refinement.mk.injEq]
    exact ⟨hcertified, hblocks'.trans hblocks.symm, hcertifications'.trans hcertifications.symm,
      hdropped, hduplicate, hpolicies'.trans hpolicies.symm⟩
  have hpromoted : ((statusLines keys).map (StatusLine.promotedBy blocks)).map
      (StatusLine.promotedBy blocks) = (statusLines keys).map (StatusLine.promotedBy blocks) := by
    rw [List.map_map]
    exact List.map_congr_left fun l _ => l.promotedBy_promotedBy blocks
  refine ⟨_, by rw [← heq, ← hcounts], ?_, ?_, hpolicy'.trans hpolicy.symm⟩
  · rw [hagain.gain.corpus, h.refined.gain.corpus]
  · rw [hagain.gain.status, hpromoted, h.refined.gain.status]

/-- Two keys that certify each other. The first one occurs twice, and the second one is certified
with a policy. A third key certifies itself, and a key that is not in the dump certifies it. -/
def unsettledDump : Source := .ofString (unlines
  ["pub::1024:17:AA:2001-01-01::4:", "uid:-::::::::Alice:", "sig:AA:2001-01-01::13::4:17:2",
    "sig:BB:2001-01-02::13::4:17:2",
    "pub::1024:17:AA:2001-01-01::4:", "uid:-::::::::Alice:", "sig:AA:2001-01-01::13::4:17:2",
    "sig:BB:2001-01-02::13::4:17:2",
    "pub::1024:17:BB:2001-01-01::4:", "uid:-::::::::Bob:", "sig:BB:2001-01-01::13::4:17:2",
    "sig:AA:2001-01-02::13::4:17:2", "spk:26:0:9:a;b",
    "pub::1024:17:CC:2001-01-01::4:", "uid:-::::::::Carol:", "sig:CC:2001-01-01::13::4:17:2",
    "sig:DD:2001-01-02::13::4:17:2"])

/-- The second pass has something to do of each kind, and the further one has not. Its counts are
given, so that one sees that none of them was zero from the start, but those of the further pass. -/
theorem refine_fixed_point_unsettledDump :
    ∃ p again, bothPasses {} unsettledDump = .ok p ∧
      p.counts = {
        certified := 3, edgeBlocks := 2, certifications := 2
        droppedBlocks := 1, duplicateBlocks := 1, policyUris := 1 } ∧
      refine p.first (.ofString p.final.corpus.text) (.ofString p.final.status.text) {}
        = ⟨again, .ok { edgeBlocks := 2, certifications := 2, policyUris := 1 }⟩ ∧
      again.corpus.text = p.final.corpus.text ∧ again.status.text = p.final.status.text ∧
      again.policy.text = "AA;a;b\n" := by
  have hfacts : ((bothPasses {} unsettledDump).toOption.map fun p =>
      (p.counts, p.final.policy.text))
        = some (⟨3, 2, 2, 1, 1, 1⟩, "AA;a;b\n") := by
    rw [unsettledDump, Source.ofString_unlines]
    decide +kernel
  obtain ⟨p, hp, hfacts⟩ := exists_resolution _ hfacts
  obtain ⟨hcounts, htext⟩ := Prod.mk.inj hfacts
  obtain ⟨again, hagain, hcorpus, hstatus, hpolicy⟩ := refine_fixed_point hp
  rw [hcounts] at hagain
  exact ⟨p, again, hp, hcounts, hagain, hcorpus, hstatus, hpolicy.trans htext⟩

end WebOfTrust
