import WebOfTrust.Proofs.BlockCounts
import WebOfTrust.Proofs.RepeatedLines

/-!
# `WebOfTrust.Proofs.BlockFates`: what becomes of each raw block

The second pass decides about a block by the keys that are trusted by then, and it is the blocks
that make keys trusted. So what becomes of a block depends on those in front of it, but only on
those of the same key, and of these only on whether one of them counts: by itself, that is, without
regard to any others. The first block of a key that counts is written, and what comes behind it is a
duplicate, even if nothing would be left of it. What comes in front of it is dropped.

- `BlockPass.fate_foldl_take`: the fate of a block, by those in front of it;
- `keptBlocks_foldl_take`, `duplicateBlocks_foldl_take`: what is written, and what is counted;
- `filter_keptBlocks`: the block of one key;
- `refine_accounts`: every raw block and every line of the final corpus is accounted for.
-/

set_option autoImplicit false

namespace WebOfTrust

open Text

variable {interesting : KeySet KeyId}

/-! ### Blocks and those in front of them -/

/-- Blocks, each with those in front of it. What becomes of a block depends on both, and not on the
blocks behind it. `front` is what stands in front of the whole list, so that the recursion can add
to it. -/
def withFront (front : List EdgeBlock) : List EdgeBlock → List (List EdgeBlock × EdgeBlock)
  | [] => []
  | b :: bs => (front, b) :: withFront (front ++ [b]) bs

/-- The members of `withFront` are the places at which the list can be cut. `Accounts.places` is the
case in which nothing stands in front. -/
theorem mem_withFront_iff {front bs : List EdgeBlock} {x : List EdgeBlock × EdgeBlock} :
    x ∈ withFront front bs ↔
      ∃ before after, bs = before ++ x.2 :: after ∧ x.1 = front ++ before := by
  induction bs generalizing front with
  | nil => simp [withFront]
  | cons b bs ih =>
    rw [withFront, List.mem_cons, ih]
    -- A place is the first one, or one in the tail with the head added to its front.
    constructor
    · rintro (rfl | ⟨before, after, rfl, hfront⟩)
      · exact ⟨[], bs, rfl, (List.append_nil front).symm⟩
      · exact ⟨b :: before, after, rfl, by rw [hfront]; simp⟩
    · rintro ⟨_ | ⟨c, before⟩, after, hbs, hfront⟩
      · obtain ⟨rfl, rfl⟩ := List.cons.inj hbs
        exact .inl (Prod.ext (by rw [hfront, List.append_nil]) rfl)
      · obtain ⟨rfl, rfl⟩ := List.cons.inj hbs
        exact .inr ⟨before, after, rfl, by rw [hfront]; simp⟩

namespace EdgeBlock

/-- Whether a block counts can be evaluated, as its entries are finitely many. The instance is that
of the conjunction which `EdgeBlock.Counts` unfolds to. -/
instance (interesting : KeySet KeyId) (b : EdgeBlock) : Decidable (b.Counts interesting) :=
  inferInstanceAs (Decidable (b.signee ∈ interesting ∧ ∃ s ∈ b.entries, s.issuer ∈ interesting))

/-- A block of a key of which one in front counts. It is a duplicate, whatever it holds. The
relation to the pass is `BlockPass.mem_trusted_foldl_take`: the key of `b` is trusted by then. -/
def IsFurther (interesting : KeySet KeyId) (front : List EdgeBlock) (b : EdgeBlock) : Prop :=
  ∃ c ∈ front, c.signee = b.signee ∧ c.Counts interesting

/-- Blocks in front are finitely many too. -/
instance (interesting : KeySet KeyId) (front : List EdgeBlock) (b : EdgeBlock) :
    Decidable (b.IsFurther interesting front) :=
  inferInstanceAs (Decidable (∃ c ∈ front, c.signee = b.signee ∧ c.Counts interesting))

/-- The first block of its key that counts. Blocks of the key in front of it may be there, if they
do not count. These are the blocks that are written. -/
def IsFirst (interesting : KeySet KeyId) (front : List EdgeBlock) (b : EdgeBlock) : Prop :=
  b.Counts interesting ∧ ¬ b.IsFurther interesting front

/-- The lists of a pass are filtered by this one. -/
instance (interesting : KeySet KeyId) (front : List EdgeBlock) (b : EdgeBlock) :
    Decidable (b.IsFirst interesting front) :=
  inferInstanceAs (Decidable (b.Counts interesting ∧ ¬ b.IsFurther interesting front))

/-- What is left of a block: the certifications by interesting keys, each at its first place. It is
stated with functions of core, and `restrict_eq_remainder` ties it to the pass. -/
def remainder (interesting : KeySet KeyId) (b : EdgeBlock) : EdgeBlock :=
  ⟨b.signee, (b.entries.filter fun s => interesting.contains s.issuer).eraseDups⟩

/-- `EdgeBlock.restrict` leaves what `remainder` says. The entries agree by
`distinct_eq_eraseDups`. -/
theorem restrict_eq_remainder (interesting : KeySet KeyId) (b : EdgeBlock) :
    b.restrict interesting = b.remainder interesting :=
  congrArg (EdgeBlock.mk b.signee) (distinct_eq_eraseDups _)

end EdgeBlock

/-! ### Fates -/

/-- A pass over blocks and one more is a pass over the former, and then the fate of the latter is
counted. Inductions from behind step by it. -/
theorem BlockPass.foldl_take_concat (interesting : KeySet KeyId) (p : BlockPass)
    (front : List EdgeBlock) (b : EdgeBlock) :
    (front ++ [b]).foldl (take interesting) p
      = (front.foldl (take interesting) p).count
          ((front.foldl (take interesting) p).fate interesting b) := by
  rw [List.foldl_concat, take]

/-- The keys that are trusted behind blocks are those of which one counts. The induction is on the
blocks from behind, by `foldl_take_concat`. -/
theorem BlockPass.mem_trusted_foldl_take {front : List EdgeBlock} {id : KeyId} :
    id ∈ (front.foldl (take interesting) {}).trusted ↔
      ∃ c ∈ front, c.signee = id ∧ c.Counts interesting := by
  induction front using List.reverseRecOn with
  | nil =>
    simp only [List.foldl_nil, List.not_mem_nil, false_and, exists_false, iff_false]
    exact Table.not_mem_empty id
  | append_singleton front b ih =>
    have hlast : (∃ c ∈ front ++ [b], c.signee = id ∧ c.Counts interesting) ↔
        (∃ c ∈ front, c.signee = id ∧ c.Counts interesting) ∨
          b.signee = id ∧ b.Counts interesting := by
      simp only [List.mem_append, List.mem_singleton, or_and_right, exists_or, exists_eq_left]
    rw [foldl_take_concat, mem_trusted_count, hlast, ← ih]
    -- A block is written unless its key is trusted already.
    by_cases hid : id ∈ (front.foldl (take interesting) {}).trusted
    · simp only [hid, true_or]
    · refine or_congr_right ⟨?_, ?_⟩
      · rintro ⟨b', hb', rfl⟩
        obtain ⟨-, hcounts, rfl⟩ := block?_fate.1 hb'
        exact ⟨rfl, hcounts⟩
      · rintro ⟨rfl, hcounts⟩
        exact ⟨_, block?_fate.2 ⟨hid, hcounts, rfl⟩, rfl⟩

/-- The fate of a block, by those in front of it: a duplicate if its key is trusted, and otherwise
what the block itself makes of it. Only `BlockPass.mem_trusted_foldl_take` is needed of the pass. -/
theorem BlockPass.fate_foldl_take (interesting : KeySet KeyId) (front : List EdgeBlock)
    (b : EdgeBlock) : (front.foldl (take interesting) {}).fate interesting b =
      if b.IsFurther interesting front then .duplicate
      else if b.Counts interesting then .written (b.remainder interesting)
      else .dropped := by
  have htrusted : (front.foldl (take interesting) {}).trusted.contains b.signee = true ↔
      b.IsFurther interesting front := mem_trusted_foldl_take
  simp only [fate, htrusted, ← EdgeBlock.restrict_eq_remainder]
  refine if_congr Iff.rfl rfl ?_
  by_cases hcounts : b.Counts interesting
  · have hsignee : interesting.contains b.signee = true := hcounts.1
    rw [if_pos hsignee, if_pos hcounts, EdgeBlock.isEmpty_entries_restrict_iff.2 hcounts.2]
    rfl
  · rw [if_neg hcounts]
    split
    · next hsignee =>
      -- The key is interesting, so it is certifications that the block has none of.
      have hempty : (b.restrict interesting).entries.isEmpty = true := by
        rw [← Bool.not_eq_false, EdgeBlock.isEmpty_entries_restrict_iff]
        exact fun hcertified => hcounts ⟨hsignee, hcertified⟩
      rw [if_pos hempty]
    · rfl

/-- The blocks that are written are the first ones of their keys that count, in the order of the raw
corpus. Each case of the induction is a fate of `BlockPass.fate_foldl_take`. -/
theorem keptBlocks_foldl_take (interesting : KeySet KeyId) (front bs : List EdgeBlock) :
    keptBlocks interesting (front.foldl (BlockPass.take interesting) {}) bs
      = ((withFront front bs).filter fun x => x.2.IsFirst interesting x.1).map fun x =>
          x.2.remainder interesting := by
  induction bs generalizing front with
  | nil => rfl
  | cons b bs ih =>
    rw [keptBlocks, ← BlockPass.foldl_take_concat, ih, BlockPass.fate_foldl_take, withFront,
      List.filter_cons]
    -- A block is written if nothing of its key counted before it and it counts itself.
    by_cases hfurther : b.IsFurther interesting front
    · simp [hfurther, EdgeBlock.IsFirst, BlockFate.block?]
    · by_cases hcounts : b.Counts interesting
      · simp [hfurther, hcounts, EdgeBlock.IsFirst, BlockFate.block?]
      · simp [hfurther, hcounts, EdgeBlock.IsFirst, BlockFate.block?]

/-- The blocks that are counted as duplicates are the further ones of their keys, also where they
would have been dropped otherwise. The front is counted first, so the statement can be used for any
part of a corpus. -/
theorem duplicateBlocks_foldl_take (interesting : KeySet KeyId) (front bs : List EdgeBlock) :
    ((front ++ bs).foldl (BlockPass.take interesting) {}).counts.duplicateBlocks
      = (front.foldl (BlockPass.take interesting) {}).counts.duplicateBlocks
        + (withFront front bs).countP fun x => x.2.IsFurther interesting x.1 := by
  induction bs generalizing front with
  | nil => simp [withFront]
  | cons b bs ih =>
    rw [List.append_cons, ih, BlockPass.foldl_take_concat, BlockPass.fate_foldl_take, withFront,
      List.countP_cons]
    -- A further block is a duplicate, whether or not anything would be left of it.
    by_cases hfurther : b.IsFurther interesting front
    · simp [hfurther, BlockPass.count]
      omega
    · by_cases hcounts : b.Counts interesting
      · simp [hfurther, hcounts, BlockPass.count]
      · simp [hfurther, hcounts, BlockPass.count]

/-! ### The block of one key -/

/-- Of a key that is not trusted yet, what is left of the first block that counts is kept, and
nothing else. So a key has one block in the final corpus or none. -/
theorem filter_keptBlocks (p : BlockPass) (bs : List EdgeBlock) (id : KeyId) :
    (keptBlocks interesting p bs).filter (·.signee = id) =
      if id ∈ p.trusted then []
      else ((bs.find? fun b => b.signee = id ∧ b.Counts interesting).map
        (EdgeBlock.remainder interesting)).toList := by
  induction bs generalizing p with
  | nil => simp [keptBlocks]
  | cons b bs ih =>
    rw [keptBlocks, List.filter_append, ih]
    have hkept := @BlockPass.block?_fate interesting p b
    have htrusted := @BlockPass.mem_trusted_count p (p.fate interesting b) id
    by_cases hid : b.signee = id ∧ b.signee ∉ p.trusted ∧ b.Counts interesting
    · -- The block is written, and its key is trusted from then on.
      obtain ⟨rfl, hnew, hcounts⟩ := hid
      have hwritten := hkept.2 ⟨hnew, hcounts, rfl⟩
      rw [hwritten] at htrusted ⊢
      rw [if_pos (htrusted.2 (.inr ⟨_, rfl, rfl⟩)), if_neg hnew, List.find?_cons_of_pos]
      · simp [← EdgeBlock.restrict_eq_remainder, EdgeBlock.restrict]
      · exact decide_eq_true ⟨rfl, hcounts⟩
    · -- Nothing is written for the key.
      have hnone : ((p.fate interesting b).block?.toList).filter (·.signee = id) = [] := by
        refine List.filter_eq_nil_iff.2 fun b' hb' hsignee => hid ?_
        obtain ⟨hnew, hcounts, rfl⟩ := hkept.1 (Option.mem_toList.1 hb')
        exact ⟨of_decide_eq_true hsignee, hnew, hcounts⟩
      have hsame : id ∈ (p.count (p.fate interesting b)).trusted ↔ id ∈ p.trusted := by
        rw [htrusted, or_iff_left]
        rintro ⟨b', hb', hsignee⟩
        have hmem : b' ∈ (p.fate interesting b).block?.toList := Option.mem_toList.2 hb'
        exact List.filter_eq_nil_iff.1 hnone b' hmem (decide_eq_true hsignee)
      rw [hnone, List.nil_append]
      simp only [hsame]
      refine ite_congr rfl (fun _ => rfl) fun hnew => ?_
      rw [List.find?_cons_of_neg]
      rw [decide_eq_true_eq]
      rintro ⟨rfl, hcounts⟩
      exact hid ⟨rfl, hnew, hcounts⟩

/-! ### Lines -/

/-- A block has one header and a line for each certification, told apart by their first characters.
A header begins with `p`, any other line with `s`. -/
theorem EdgeBlock.countP_textLines (b : EdgeBlock) :
    b.textLines.countP (·.toList.head? = some 'p') = 1 ∧
      b.textLines.countP (·.toList.head? = some 's') = b.entries.length := by
  have hheader : (CorpusLine.headerText b.signee).toList.head? = some 'p' := by
    rw [CorpusLine.toList_headerText, List.head?_cons]
  have hentry : ∀ s : Signature, s.corpusLine.toList.head? = some 's' := fun s => by
    simp [Signature.corpusLine]
  constructor <;> simp [textLines, hheader, hentry, List.countP_map, Function.comp_def]

/-- Summed over the blocks, headers and certifications can be counted in the text.
`Accounts.headers` and `Accounts.certifications` are stated for the text because of it. -/
theorem Corpus.countP_textLines (blocks : List EdgeBlock) :
    (blocks.flatMap EdgeBlock.textLines).countP (·.toList.head? = some 'p') = blocks.length ∧
      (blocks.flatMap EdgeBlock.textLines).countP (·.toList.head? = some 's')
        = (Corpus.edges blocks).length := by
  induction blocks with
  | nil => exact ⟨rfl, rfl⟩
  | cons b blocks ih =>
    rw [List.flatMap_cons, List.countP_append, List.countP_append, ih.1, ih.2,
      b.countP_textLines.1, b.countP_textLines.2]
    exact ⟨Nat.add_comm _ _, by simp [Corpus.edges]⟩

/-! ### The pass -/

/-- What a second pass makes of the blocks `raw`: it writes `blocks`, whose lines are `texts`, and
every raw block and every line is in one of its counts. -/
structure Corpus.Accounts (interesting : KeySet KeyId) (raw blocks : List EdgeBlock)
    (texts : List String) (counts : Refinement) : Prop where
  /-- Each raw block is in one of three counts. -/
  read : raw.length = counts.edgeBlocks + counts.droppedBlocks + counts.duplicateBlocks
  /-- `withFront` has each block with those that stand in front of it. -/
  places : ∀ front b, (front, b) ∈ withFront [] raw ↔ ∃ after, raw = front ++ b :: after
  /-- The fate of a block, when the pass comes to it. -/
  fates : ∀ front b, (front, b) ∈ withFront [] raw →
    (front.foldl (BlockPass.take interesting) {}).fate interesting b =
      if b.IsFurther interesting front then .duplicate
      else if b.Counts interesting then .written (b.remainder interesting)
      else .dropped
  /-- A block is counted as a duplicate if one of its key counted before. -/
  duplicates : counts.duplicateBlocks
    = (withFront [] raw).countP fun x => x.2.IsFurther interesting x.1
  /-- The order is that of the raw blocks. -/
  written : blocks = ((withFront [] raw).filter fun x => x.2.IsFirst interesting x.1).map fun x =>
    x.2.remainder interesting
  /-- A key has a block if one of its raw blocks counts, and then it is the first of those. -/
  ofKey : ∀ id, blocks.filter (·.signee = id)
    = ((raw.find? fun b => b.signee = id ∧ b.Counts interesting).map
        (EdgeBlock.remainder interesting)).toList
  /-- The text is made of the lines of the blocks. -/
  lines : texts = blocks.flatMap EdgeBlock.textLines
  /-- The blocks that are counted are those with a header in it. -/
  headers : counts.edgeBlocks = texts.countP (·.toList.head? = some 'p')
  /-- Each line of a certification is counted. -/
  certifications : counts.certifications = texts.countP (·.toList.head? = some 's')

/-- The blocks that a pass keeps account for all that it reads and writes. The counts are those of a
fold by `refine_blockCounts`, and everything else is about lists. -/
theorem Corpus.accounts_keptBlocks {first : FirstPass} {corpus status : Source} {out : Artifacts}
    {counts : Refinement} {raw : List EdgeBlock}
    (h : (refine first corpus status out).result = .ok counts)
    (hraw : Corpus.blocks readingRawCorpus corpus = raw.map .ok) :
    Accounts first.interesting raw (keptBlocks first.interesting {} raw)
      ((keptBlocks first.interesting {} raw).flatMap EdgeBlock.textLines) counts := by
  have hcounts := refine_blockCounts h hraw
  obtain ⟨hblocks, hcertifications⟩ := counts_foldl_take first.interesting {} raw
  obtain ⟨hheaders, hentries⟩ := Corpus.countP_textLines (keptBlocks first.interesting {} raw)
  exact
    { read := by
        rw [hcounts]
        exact ((accounted_foldl_take first.interesting {} raw).trans (Nat.zero_add _)).symm
      places := fun front b => by simp [mem_withFront_iff]
      fates := fun front b _ => BlockPass.fate_foldl_take first.interesting front b
      duplicates := by
        rw [hcounts]
        exact (duplicateBlocks_foldl_take first.interesting [] raw).trans (Nat.zero_add _)
      written := keptBlocks_foldl_take first.interesting [] raw
      ofKey := fun id => (filter_keptBlocks {} raw id).trans (if_neg (Table.not_mem_empty id))
      lines := rfl
      headers := by
        rw [hheaders, hcounts]
        exact hblocks.trans (Nat.zero_add _)
      certifications := by
        rw [hentries, hcounts]
        exact hcertifications.trans (Nat.zero_add _) }

/-- A second pass that succeeds accounts for every raw block and for every line that it writes, over
any corpus. What was written can be read again, by `Corpus.textLines_render`, so the text is
described by its lines. -/
theorem refine_accounts {first : FirstPass} {corpus status : Source} {out : Artifacts}
    {counts : Refinement} (h : (refine first corpus status out).result = .ok counts) :
    ∃ raw blocks texts text,
      Corpus.blocks readingRawCorpus corpus = raw.map .ok ∧
      (refine first corpus status out).written.corpus.text = out.corpus.text ++ text ∧
      (Source.ofString text).textLines = texts.map .ok ∧
      Corpus.Accounts first.interesting raw blocks texts counts := by
  obtain ⟨raw, ls, blocks, hraw, -, hrefined⟩ := refine_eq_ok h
  obtain rfl := hrefined.kept
  -- No entry of a kept block has a line feed in it, as it was read from a line.
  have hlines : ∀ b ∈ keptBlocks first.interesting {} raw, ∀ s ∈ b.entries, s.OnOneLine := by
    intro b hb s hs
    obtain ⟨r, hr, -, -, rfl⟩ := exists_of_mem_keptBlocks hb
    have hwritable : r.Writable :=
      Corpus.writable_of_mem_blocks (by rw [hraw]; exact List.mem_map_of_mem hr)
    exact (hwritable.restrict s hs).2
  exact ⟨raw, _, _, _, hraw, hrefined.gain.corpus, Corpus.textLines_render hlines,
    Corpus.accounts_keptBlocks h hraw⟩

/-- Six blocks, four of them of one key: one without certifications, one with a certification that
comes twice, one that is late, and one that is late and empty. One is of a key that is not
interesting. -/
def repeatedBlocksCorpus : Source := .ofString (unlines
  ["pAA", "pCC", "sAA;2001-01-01;;;0;17;2;4",
    "pAA", "sBB;2001-01-01;;;0;17;2;4", "sCC;2001-01-01;;;0;17;2;4", "sBB;2001-01-01;;;0;17;2;4",
    "pAA", "sBB;2003-01-01;;;0;17;2;4", "pBB", "sAA;2001-01-01;;;0;17;2;4", "pAA"])

/-- Of the six blocks two are written, two are dropped and two are duplicates. The second block of
the first key is the one that is kept, with the repetition left out. -/
theorem refine_accounts_repeatedBlocks :
    (refine twoInteresting repeatedBlocksCorpus (.ofString "") {}).result
        = .ok { edgeBlocks := 2, certifications := 2, droppedBlocks := 2, duplicateBlocks := 2 } ∧
      ∃ raw blocks texts text,
        Corpus.blocks readingRawCorpus repeatedBlocksCorpus = raw.map .ok ∧
        (refine twoInteresting repeatedBlocksCorpus (.ofString "") {}).written.corpus.text
          = "" ++ text ∧
        (Source.ofString text).textLines = texts.map .ok ∧
        Corpus.Accounts twoInteresting.interesting raw blocks texts
          { edgeBlocks := 2, certifications := 2, droppedBlocks := 2, duplicateBlocks := 2 } := by
  -- The second pass is run; the rest is the general theorem.
  have hresult : (refine twoInteresting repeatedBlocksCorpus (.ofString "") {}).result
      = .ok { edgeBlocks := 2, certifications := 2, droppedBlocks := 2, duplicateBlocks := 2 } := by
    rw [repeatedBlocksCorpus, Source.ofString_unlines]
    decide +kernel
  exact ⟨hresult, refine_accounts hresult⟩

end WebOfTrust
