import Mathlib.Data.List.Nodup
import WebOfTrust.Proofs.Text.ByteOrder
import WebOfTrust.Proofs.TrustGain

/-!
# `WebOfTrust.Proofs.CanonicalCorpus`: the shape of the final corpus

A key holds its certifications in a table, so the first pass writes them in the order of their
issuers, each issuer once, and the owner of the key is none of them. The second pass takes some of
them out and adds none. It only has a choice where a key occurs twice: then the block that is
written is what is left of the first one of which anything is left, and that may come late.

- `find?_of_mem_keptBlocks`: which block of a key is kept;
- `Corpus.Canonical`: the shape of a corpus, compared with the raw one;
- `canonical_corpus`: both passes over a dump leave a corpus of this shape.
-/

set_option autoImplicit false

namespace WebOfTrust

open Dump Resolver Text

/-! ### Blocks in the order of their issuers -/

namespace EdgeBlock

/-- The issuers come in strictly ascending order, by the bytes of their ids. A `Table` is written in
this order, and the order is what makes corpora of the same edges equal. -/
def Ascending (b : EdgeBlock) : Prop :=
  b.entries.Pairwise fun s t => s.issuer.bytes < t.issuer.bytes

/-- Strictly ascending issuers are distinct ones. So `distinct` has nothing to do in an ascending
block. -/
theorem Ascending.nodup_issuers {b : EdgeBlock} (h : b.Ascending) :
    (b.entries.map Signature.issuer).Nodup := by
  rw [List.Nodup, List.pairwise_map]
  refine h.imp fun {s t} hlt heq => ?_
  rw [heq] at hlt
  exact List.lt_irrefl _ hlt

/-- Where nothing comes twice, `distinct` leaves everything as it is. The induction is on the list,
whose head is not found in its tail. -/
theorem distinct_eq_self {l : List Signature} (h : l.Nodup) : distinct l = l := by
  induction l with
  | nil => rfl
  | cons s l ih =>
    obtain ⟨hs, hl⟩ := List.nodup_cons.1 h
    rw [distinct, ih hl, List.filter_eq_self.2]
    intro t ht
    exact decide_eq_true fun heq => hs (heq ▸ ht)

/-- What is left of an ascending block. Nothing in it is written twice, so the only certifications
that go are those by keys outside `interesting`. -/
theorem Ascending.entries_restrict {interesting : KeySet KeyId} {b : EdgeBlock}
    (h : b.Ascending) : (b.restrict interesting).entries
      = b.entries.filter fun s => s.issuer ∈ interesting := by
  have hcontains : (fun s : Signature => decide (s.issuer ∈ interesting))
      = fun s => interesting.contains s.issuer := funext fun s => Bool.decide_coe _
  rw [hcontains]
  exact distinct_eq_self (h.nodup_issuers.of_map.filter _)

/-- Leaving out certifications does not disturb the order of the others. By
`Ascending.entries_restrict` they are a filter of the old ones. -/
theorem Ascending.restrict {interesting : KeySet KeyId} {b : EdgeBlock} (h : b.Ascending) :
    (b.restrict interesting).Ascending := by
  rw [Ascending, h.entries_restrict]
  exact List.Pairwise.filter _ h

end EdgeBlock

namespace Corpus

/-- The certifications of a corpus as pairs of issuer and certified key, in their order. Dates,
levels and everything else of a `Signature` are forgotten, as an analysis makes an edge of nothing
but the two keys. -/
def edges (blocks : List EdgeBlock) : List (KeyId × KeyId) :=
  blocks.flatMap fun b => b.entries.map fun s => (s.issuer, b.signee)

/-- The pairs of two corpora, one behind the other. Loaders go through a corpus block by block and
are followed by it. -/
theorem edges_append (blocks blocks' : List EdgeBlock) :
    edges (blocks ++ blocks') = edges blocks ++ edges blocks' :=
  List.flatMap_append

/-- Where no key certifies itself, no pair is of one key. The corpora of both passes are so by
`Canonical.foreign`, and it is the hypothesis of `StrongSetGraph.loopless_addEdges`. -/
theorem ne_of_mem_edges {blocks : List EdgeBlock}
    (h : ∀ b ∈ blocks, ∀ s ∈ b.entries, s.issuer ≠ b.signee) : ∀ e ∈ edges blocks, e.1 ≠ e.2 := by
  intro e he
  obtain ⟨b, hb, he⟩ := List.mem_flatMap.1 he
  obtain ⟨s, hs, rfl⟩ := List.mem_map.1 he
  exact h b hb s hs

/-- In blocks of different keys, each of them in order, no pair comes twice. Both conditions are
needed: the first is about pairs in different blocks, the second about pairs in one.
`Canonical.edges` is what it is for. -/
theorem nodup_edges {blocks : List EdgeBlock} (hsignees : (blocks.map EdgeBlock.signee).Nodup)
    (hascending : ∀ b ∈ blocks, b.Ascending) : (edges blocks).Nodup := by
  rw [edges, List.nodup_flatMap]
  refine ⟨fun b hb => ?_, ?_⟩
  · have hissuers := (hascending b hb).nodup_issuers
    exact List.Nodup.of_map Prod.fst (by rwa [List.map_map])
  · rw [List.Nodup, List.pairwise_map] at hsignees
    refine hsignees.imp fun {b c} hne => ?_
    -- The pairs of two blocks differ in their second components.
    rintro ⟨issuer, signee⟩ hb hc
    obtain ⟨s, -, hs⟩ := List.mem_map.1 hb
    obtain ⟨t, -, ht⟩ := List.mem_map.1 hc
    exact hne ((congrArg Prod.snd hs).trans (congrArg Prod.snd ht).symm)

end Corpus

/-! ### The block that is kept -/

/-- Of the blocks of a key the one that is kept is the first of which anything is left. Blocks in
front of it that are left empty are dropped, and do not count as the occurrence of the key. The
induction is on `keptBlocks`. -/
theorem find?_of_mem_keptBlocks {interesting : KeySet KeyId} {p : BlockPass} {bs : List EdgeBlock}
    {b' : EdgeBlock} (h : b' ∈ keptBlocks interesting p bs) :
    ∃ r, bs.find? (fun r => r.signee = b'.signee ∧ ∃ s ∈ r.entries, s.issuer ∈ interesting)
        = some r ∧ r.restrict interesting = b' := by
  induction bs generalizing p with
  | nil => cases h
  | cons b bs ih =>
    rcases List.mem_append.1 h with h | h
    · obtain ⟨-, hcounts, rfl⟩ := BlockPass.block?_fate.1 (Option.mem_toList.1 h)
      exact ⟨b, List.find?_cons_of_pos (decide_eq_true ⟨rfl, hcounts.2⟩), rfl⟩
    · obtain ⟨r, hr, hrestrict⟩ := ih h
      refine ⟨r, ?_, hrestrict⟩
      rw [List.find?_cons_of_neg, hr]
      rw [decide_eq_true_eq]
      rintro ⟨hsignee, hcertified⟩
      -- Were `b` such a block, it would have been written, and the later one would not.
      obtain ⟨c, -, htrusted, hcounts, rfl⟩ := exists_of_mem_keptBlocks h
      have hsignee : b.signee = c.signee := hsignee
      rw [← hsignee] at htrusted
      have hwritten := BlockPass.block?_fate.2
        ⟨fun hmem => htrusted (BlockPass.mem_trusted_count.2 (.inl hmem)),
          ⟨hsignee ▸ hcounts.1, hcertified⟩, rfl⟩
      exact htrusted (BlockPass.mem_trusted_count.2 (.inr ⟨_, hwritten, rfl⟩))

/-! ### The raw corpus -/

/-- No key holds its own certification among those of others: `Holdings.offer` puts it elsewhere. It
is read off `Key.sound_consolidated`, the invariant of the keyring. -/
theorem Segment.ne_keyId_of_mem_certifications {settings : ResolutionSettings} {s : Segment}
    {k : CommittedKey} (h : s.commit settings = .ok k) {issuer : KeyId}
    (hissuer : issuer ∈ k.certifications) : issuer ≠ k.keyId := by
  obtain ⟨key, hkey, rfl⟩ := except_map_eq_ok.1 h
  have hsound : key.Sound fun _ => True := Key.sound_foldlM_take (fun _ _ => trivial) hkey
  obtain ⟨c, hc⟩ := Option.isSome_iff_exists.1 hissuer
  exact ((Key.find?_certifications_commit hsound fun _ _ _ => id).1 hc).1

/-- A block of a key is in the order of its table. Soundness is needed because a block has the
issuers of the certifications, while the table is ordered by the ids under which they are held. -/
theorem CommittedKey.Sound.ascending_readBlock {k : CommittedKey} (hk : k.Sound) :
    k.readBlock.Ascending := by
  have hentries : k.readBlock.entries
      = k.certifications.entries.map fun e => e.2.toSignature.reread := by
    simp [readBlock, EdgeBlock.reread, Table.values, List.map_map, Function.comp_def]
  rw [EdgeBlock.Ascending, hentries, List.pairwise_map]
  refine k.certifications.ascending.imp_of_mem fun {e e'} he he' hlt => ?_
  -- What is held under an id was given by the key of that id.
  have hissuer : e.2.issuer = e.1 := hk _ _ (Table.mem_entries_iff.1 he)
  have hissuer' : e'.2.issuer = e'.1 := hk _ _ (Table.mem_entries_iff.1 he')
  rw [Signature.issuer_reread, Signature.issuer_reread, hissuer, hissuer']
  exact KeyId.bytes_lt_of_compare hlt

variable {settings : ResolutionSettings} {items : List (Nat × Record)}
  {keys : List CommittedKey} {blocks : List EdgeBlock} {p : Resolution}

/-- A block of the final corpus is what is left of a raw one. Facts about raw blocks are handed down
to final ones by this. -/
theorem Passed.exists_raw (h : Passed settings items keys blocks p) {b : EdgeBlock}
    (hb : b ∈ blocks) : ∃ r ∈ (edgeBlocks keys).map EdgeBlock.reread,
      r.Counts p.first.interesting ∧ r.restrict p.first.interesting = b := by
  rw [h.refined.kept] at hb
  obtain ⟨r, hr, -, hcounts⟩ := exists_of_mem_keptBlocks hb
  exact ⟨r, hr, hcounts⟩

/-- What the second pass writes is read as what it kept: the levels have been through a text once
and do not change any more. -/
theorem Passed.reread_blocks (h : Passed settings items keys blocks p) :
    blocks.map EdgeBlock.reread = blocks := by
  -- A level that has been read from its code has that code.
  have hlevel : ∀ s : Signature, s.reread.reread = s.reread := fun s => by
    simp [Signature.reread, Signature.code_ofByte_code]
  refine (List.map_congr_left fun b hb => ?_).trans (List.map_id blocks)
  -- A kept block is a part of a raw one, and that one was read from a text.
  obtain ⟨r, hr, -, rfl⟩ := h.exists_raw hb
  obtain ⟨d, -, rfl⟩ := List.mem_map.1 hr
  rw [id, EdgeBlock.reread]
  congr 1
  refine (List.map_congr_left fun s hs => ?_).trans (List.map_id _)
  obtain ⟨t, -, rfl⟩ := List.mem_map.1 (EdgeBlock.mem_entries_restrict.1 hs).1
  exact hlevel t

/-- The final corpus is that of `blocks`, without the `reread` of `Passed.holds_corpus`. -/
theorem Passed.holds_final (h : Passed settings items keys blocks p) :
    Corpus.Holds p.final.corpus.text blocks := by
  have hcorpus := h.holds_corpus
  rwa [h.reread_blocks] at hcorpus

/-- The final corpus is read as the blocks that it was written from, at any stage. The name of the
stage goes into errors only, and there are none. -/
theorem Passed.blocks_final (h : Passed settings items keys blocks p) (stage : String) :
    Corpus.blocks stage (.ofString p.final.corpus.text) = blocks.map .ok := by
  have hcorpus : p.final.corpus.text = String.join (blocks.map EdgeBlock.render) := by
    simpa using h.refined.gain.corpus
  rw [hcorpus, Corpus.blocks_render stage h.writable_blocks, h.reread_blocks]

/-- The raw corpus is that of the interesting keys, up to the levels of the certifications, which
have not been read yet. -/
theorem Passed.holds_rawCorpus (h : Passed settings items keys blocks p) :
    Corpus.Holds p.raw.corpus.text ((edgeBlocks keys).map EdgeBlock.reread) := by
  rw [h.resolved.corpus]
  exact Corpus.holds_render h.blocks

/-! ### The final corpus -/

/-- What a raw corpus comes to, if the certifications by the keys in `interesting` are those that
count. The fields up to `members` are about `blocks` alone; `first` and `complete` tie them to
`raw`. -/
structure Corpus.Canonical (interesting : KeySet KeyId) (raw blocks : List EdgeBlock) : Prop where
  /-- No key heads two blocks. -/
  signees : (blocks.map EdgeBlock.signee).Nodup
  /-- A block that nothing is left of is not written. -/
  nonempty : ∀ b ∈ blocks, b.entries ≠ []
  /-- The issuers of a block come in the order of their ids. -/
  ascending : ∀ b ∈ blocks, b.Ascending
  /-- No certification comes twice in the whole corpus. -/
  edges : (edges blocks).Nodup
  /-- No key certifies itself. -/
  foreign : ∀ b ∈ blocks, ∀ s ∈ b.entries, s.issuer ≠ b.signee
  /-- Only interesting keys occur, on either side. -/
  members : ∀ b ∈ blocks, b.signee ∈ interesting ∧ ∀ s ∈ b.entries, s.issuer ∈ interesting
  /-- A block is what is left of the first raw block of its key of which anything is left. -/
  first : ∀ b ∈ blocks, ∃ r,
    raw.find? (fun r => r.signee = b.signee ∧ ∃ s ∈ r.entries, s.issuer ∈ interesting) = some r ∧
      b.entries = r.entries.filter fun s => s.issuer ∈ interesting
  /-- Every key with such a raw block has a block. -/
  complete : ∀ r ∈ raw, (∃ s ∈ r.entries, s.issuer ∈ interesting) →
    ∃ b ∈ blocks, b.signee = r.signee

/-- The final corpus of both passes is canonical. The raw blocks are ascending and foreign as the
keys wrote them, and the second pass keeps the first of each key. Each field is proved from
`Passed.exists_raw` and from what is known of the raw block that it gives. -/
theorem Passed.canonical (h : Passed settings items keys blocks p) :
    Corpus.Canonical p.first.interesting ((edgeBlocks keys).map EdgeBlock.reread) blocks := by
  have hraw : ∀ r ∈ (edgeBlocks keys).map EdgeBlock.reread, r.Ascending := fun r hr => by
    obtain ⟨k, hk, -, rfl⟩ := mem_readBlocks_iff.1 hr
    exact (h.sound k hk).ascending_readBlock
  have hascending : ∀ b ∈ blocks, b.Ascending := fun b hb => by
    obtain ⟨r, hr, -, rfl⟩ := h.exists_raw hb
    exact (hraw r hr).restrict
  exact {
    signees := h.nodup_signees
    nonempty := fun b hb => by
      obtain ⟨r, -, hcounts, rfl⟩ := h.exists_raw hb
      exact List.isEmpty_eq_false_iff.1 (EdgeBlock.isEmpty_entries_restrict_iff.2 hcounts.2)
    ascending := hascending
    edges := Corpus.nodup_edges h.nodup_signees hascending
    -- A final entry is a certification that the key holds, and a key holds none of its own.
    foreign := fun b hb s hs heq => by
      obtain ⟨k, hk, hid, -, hcertified, -⟩ := h.exists_key_of_hasEdge ⟨b, hb, rfl, s, hs, rfl⟩
      obtain ⟨segment, -, hcommit⟩ := h.resolved.exists_segment hk
      exact Segment.ne_keyId_of_mem_certifications hcommit hcertified (heq.trans hid.symm)
    members := fun b hb => by
      obtain ⟨r, -, hcounts, rfl⟩ := h.exists_raw hb
      exact ⟨hcounts.1, fun s hs => (EdgeBlock.mem_entries_restrict.1 hs).2⟩
    first := fun b hb => by
      rw [h.refined.kept] at hb
      obtain ⟨r, hr, rfl⟩ := find?_of_mem_keptBlocks hb
      exact ⟨r, hr, (hraw r (List.mem_of_find?_eq_some hr)).entries_restrict⟩
    -- No key is trusted when the pass begins, so the key of a raw block that counts gets a block.
    complete := fun r hr hcertified => by
      obtain ⟨k, hk, hinteresting, rfl⟩ := mem_readBlocks_iff.1 hr
      rw [h.refined.kept, mem_signees_keptBlocks_iff]
      exact ⟨Table.not_mem_empty _, _, hr, rfl,
        (h.resolved.interesting _).2 ⟨k, hk, hinteresting, rfl⟩, hcertified⟩ }

/-- Both passes over a dump leave a corpus of this shape, whether or not keys occur twice. Raw and
final corpus are given by their texts, as `Corpus.Holds` says. -/
theorem canonical_corpus {dump : Source} (hpasses : bothPasses settings dump = .ok p) :
    ∃ raw blocks, Corpus.Holds p.raw.corpus.text raw ∧ Corpus.Holds p.final.corpus.text blocks ∧
      Corpus.Canonical p.first.interesting raw blocks := by
  obtain ⟨items, keys, blocks, -, h⟩ := bothPasses_eq_ok hpasses
  have hfinal := h.holds_corpus
  rw [h.reread_blocks] at hfinal
  exact ⟨_, blocks, h.holds_rawCorpus, hfinal, h.canonical⟩

/-- Two keys that certify each other, and certifications of the first one by a third, which is not
in the dump. The first key occurs twice, and only its second block names the second key. -/
def lateBlockDump : Source := .ofString (unlines
  ["pub::1024:17:AA:2001-01-01::4:", "uid:-::::::::Alice:", "sig:AA:2001-01-01::13::4:17:2",
    "sig:CC:2001-01-02::13::4:17:2",
    "pub::1024:17:BB:2001-01-01::4:", "uid:-::::::::Bob:", "sig:BB:2001-01-01::13::4:17:2",
    "sig:AA:2001-01-02::13::4:17:2",
    "pub::1024:17:AA:2001-01-01::4:", "uid:-::::::::Alice:", "sig:AA:2001-01-01::13::4:17:2",
    "sig:CC:2001-01-02::13::4:17:2", "sig:BB:2001-01-02::13::4:17:2"])

/-- Nothing is left of the first block of the first key, so the second one is written. It stands
behind the block of the other key then, though its key came first in the dump. -/
theorem canonical_corpus_lateBlockDump :
    ∃ p, bothPasses {} lateBlockDump = .ok p ∧ p.counts.droppedBlocks = 1 ∧
      p.final.corpus.text
        = "pBB\nsAA;2001-01-02;;;3;17;2;4\npAA\nsBB;2001-01-02;;;3;17;2;4\n" ∧
      ∃ raw blocks, Corpus.Holds p.raw.corpus.text raw ∧
        Corpus.Holds p.final.corpus.text blocks ∧
        Corpus.Canonical p.first.interesting raw blocks := by
  have hcorpus : ((bothPasses {} lateBlockDump).toOption.map fun p =>
      (p.counts.droppedBlocks, p.final.corpus.text))
        = some (1, "pBB\nsAA;2001-01-02;;;3;17;2;4\npAA\nsBB;2001-01-02;;;3;17;2;4\n") := by
    rw [lateBlockDump, Source.ofString_unlines]
    decide +kernel
  obtain ⟨p, hp, hcorpus⟩ := exists_resolution _ hcorpus
  obtain ⟨hdropped, htext⟩ := Prod.mk.inj hcorpus
  exact ⟨p, hp, hdropped, htext, canonical_corpus hp⟩

end WebOfTrust
