import Mathlib.Data.Finset.Card
import WebOfTrust.Proofs.Pipeline

/-!
# `WebOfTrust.Proofs.Promotion`: the second pass promotes exactly the keys of its blocks

The key-status table and the edge corpus are written apart from each other, and nobody compares
them. They agree all the same: a line is promoted if and only if it is valid and heads a block of
the final corpus, and every other line stays as it is, byte for byte. A key may occur twice in a
dump. Its valid lines are then promoted together, while one block is written, so that more keys
count as promoted than there are blocks.

- `refine_promotes`: any second pass that succeeds;
- `bothPasses_promotes`: both passes over a dump;
- `promotion_exact`: the two together.
-/

set_option autoImplicit false

namespace WebOfTrust

open Text

/-! ### Promoted lines -/

namespace StatusLine

variable {blocks : List EdgeBlock} {l : StatusLine}

/-- Whether a line is promoted: it is valid, and its key heads a block. This is the specification
that `StatusLine.promotedBy` is compared with. -/
def Promotes (blocks : List EdgeBlock) (l : StatusLine) : Prop :=
  l.status = .valid ∧ ∃ b ∈ blocks, b.signee = l.keyId

/-- Both halves of `Promotes` can be evaluated, so lines can be filtered and counted by it. -/
instance (blocks : List EdgeBlock) (l : StatusLine) : Decidable (l.Promotes blocks) :=
  inferInstanceAs (Decidable (_ ∧ _))

/-- What the pass makes of a line that `Promotes` speaks of: the status is replaced, and no other
field is touched. -/
theorem promotedBy_of_promotes (h : l.Promotes blocks) :
    l.promotedBy blocks = { l with status := .certified } :=
  if_pos h

/-- Any other line is left as it is, whether it is not valid or its key heads no block. -/
theorem promotedBy_of_not_promotes (h : ¬ l.Promotes blocks) : l.promotedBy blocks = l :=
  if_neg h

/-- A line is changed if and only if it is promoted. The pass counts a promotion by the change it
sees, so this ties `Refinement.certified` to `Promotes`. -/
theorem promotedBy_ne_iff : l.promotedBy blocks ≠ l ↔ l.Promotes blocks := by
  by_cases h : l.Promotes blocks
  · rw [promotedBy_of_promotes h]
    refine iff_of_true (fun heq => ?_) h
    -- The line was valid before the promotion and is not behind it.
    have hstatus := congrArg StatusLine.status heq
    rw [h.1] at hstatus
    cases hstatus
  · simp [promotedBy_of_not_promotes h, h]

/-- A promotion does not change the key of a line, so lines are found under the ids that they had in
the raw table. -/
@[simp] theorem keyId_promotedBy (blocks : List EdgeBlock) (l : StatusLine) :
    (l.promotedBy blocks).keyId = l.keyId := by
  rw [promotedBy]
  split <;> rfl

/-- A line is promoted by the keys of the blocks; what the blocks hold is of no account. So it does
not matter that `EdgeBlock.reread` changes levels. -/
theorem promotedBy_congr {blocks' : List EdgeBlock}
    (h : blocks.map EdgeBlock.signee = blocks'.map EdgeBlock.signee) :
    promotedBy blocks = promotedBy blocks' := by
  have hheads : ∀ (bs : List EdgeBlock) (id : KeyId),
      (∃ b ∈ bs, b.signee = id) ↔ id ∈ bs.map EdgeBlock.signee := fun bs id => by
    simp only [List.mem_map]
  funext l
  simp only [promotedBy, hheads, h]

/-- A promoted line can be written if the line could: `.certified` has a code, and the other fields
are the same. -/
theorem writable_promotedBy (h : l.Writable) : (l.promotedBy blocks).Writable := by
  rw [promotedBy]
  split
  · exact ⟨by simp, h.algorithm, h.created, h.expires⟩
  · exact h

/-- A promotion leaves the dates, and only those could hold a line feed. It is needed to read the
final table back. -/
theorem onOneLine_promotedBy (h : l.OnOneLine) : (l.promotedBy blocks).OnOneLine := by
  rw [promotedBy]
  split <;> exact h

/-- The text of a line begins with the code of its status. What stands behind the first semicolon
does not depend on the status. -/
theorem render_eq (l : StatusLine) :
    l.render = l.status.code ++ ";" ++ ofFields ';' l.fields.tail := by
  apply String.toList_inj.1
  simp [render, fields, ofFields, join]

/-- In the text, a promotion replaces `V` by `VC` and nothing else. It follows from `render_eq`,
since both lines have the same fields behind the first. -/
theorem render_promotedBy (h : l.Promotes blocks) :
    ∃ rest, l.render = "V;" ++ rest ∧ (l.promotedBy blocks).render = "VC;" ++ rest := by
  refine ⟨ofFields ';' l.fields.tail, ?_, ?_⟩
  · rw [render_eq, h.1]
    rfl
  · rw [promotedBy_of_promotes h, render_eq]
    rfl

end StatusLine

/-! ### Counts -/

/-- Where no element passes both tests, those that pass one of the two are counted by adding.
`countP_mem_eq_length` splits the lines of several ids with it. -/
theorem countP_or_of_disjoint {α : Type} {p q r : α → Bool} (l : List α)
    (hr : ∀ a, r a = (p a || q a)) (hdisjoint : ∀ a, p a = true → q a = false) :
    l.countP r = l.countP p + l.countP q := by
  induction l with
  | nil => rfl
  | cons a l ih =>
    have ha := hdisjoint a
    rw [List.countP_cons, List.countP_cons, List.countP_cons, ih, hr a]
    cases hp : p a <;> cases hq : q a <;> simp_all <;> omega

/-- The valid lines of an id, in the order of the table. They are the ones that are promoted once
the id heads a block. -/
def validLines (ls : List StatusLine) (id : KeyId) : List StatusLine :=
  ls.filter fun l => l.status = .valid ∧ l.keyId = id

/-- Valid lines of distinct ids, counted together and id by id. If an id came twice in `ids`, the
right side would count its lines twice. -/
theorem countP_mem_eq_length {ids : List KeyId} (hnodup : ids.Nodup) (ls : List StatusLine) :
    (ls.countP fun l => l.status = .valid ∧ l.keyId ∈ ids)
      = (ids.flatMap (validLines ls)).length := by
  induction ids with
  | nil => simp
  | cons id ids ih =>
    obtain ⟨hid, hrest⟩ := List.nodup_cons.1 hnodup
    rw [List.flatMap_cons, List.length_append, ← ih hrest, validLines,
      ← List.countP_eq_length_filter]
    -- A line has one id, so it is not counted under `id` and under one of `ids`.
    apply countP_or_of_disjoint
    · intro l
      rw [← Bool.decide_or, decide_eq_decide, List.mem_cons, and_or_left]
    · intro l hl
      simp only [decide_eq_true_eq] at hl
      simp [hl.2, hid]

variable {α β : Type} {f : α → List β} {as : List α}

/-- Lists of which none is empty have at least as many members as there are of them. Applied to
`validLines`, it bounds the promoted keys by the promoted lines. -/
theorem length_le_length_flatMap (hne : ∀ a ∈ as, f a ≠ []) :
    as.length ≤ (as.flatMap f).length := by
  induction as with
  | nil => simp
  | cons a as ih =>
    have ha : 0 < (f a).length := List.length_pos_of_ne_nil (hne a List.mem_cons_self)
    have hrest := ih fun b hb => hne b (List.mem_cons_of_mem _ hb)
    rw [List.flatMap_cons, List.length_append, List.length_cons]
    omega

/-- There are more, unless each of them is a single one. So promoted keys and promoted lines are as
many only where no promoted key has two valid lines. -/
theorem length_eq_length_flatMap_iff (hne : ∀ a ∈ as, f a ≠ []) :
    as.length = (as.flatMap f).length ↔ ∀ a ∈ as, (f a).length ≤ 1 := by
  induction as with
  | nil => simp
  | cons a as ih =>
    have hrest : ∀ b ∈ as, f b ≠ [] := fun b hb => hne b (List.mem_cons_of_mem _ hb)
    have ha : 0 < (f a).length := List.length_pos_of_ne_nil (hne a List.mem_cons_self)
    -- Neither part has less than its share, so the whole is exact only if both parts are.
    have hle := length_le_length_flatMap hrest
    rw [List.flatMap_cons, List.length_append, List.length_cons, List.forall_mem_cons, ← ih hrest]
    omega

/-! ### A second pass -/

/-- What a second pass over a table makes of it: `texts` are the lines of the table, `ls` what those
of them are read as that are not blank, and `blocks` are the final corpus. It says nothing of how
the table or the corpus came about. -/
structure TableRefined (status : Source) (out final : Artifacts) (certified : Nat)
    (texts : List String) (ls : List StatusLine) (blocks : List EdgeBlock)
    (statusOut corpusOut : String) : Prop where
  /-- The table is delivered whole, line by line. -/
  delivered : status.textLines = texts.map .ok
  /-- Blank lines are passed over; all others are read. -/
  parsed : (texts.filter fun t => !StatusTable.isBlankLine t).map StatusLine.parse = ls.map .ok
  /-- The pass appends to the table that is there already. -/
  statusWritten : final.status.text = out.status.text ++ statusOut
  /-- So it does to the corpus. -/
  corpusWritten : final.corpus.text = out.corpus.text ++ corpusOut
  /-- What it appends is a corpus of `blocks`, and is read as them. -/
  corpus : Corpus.Holds corpusOut blocks
  /-- The table has the lines of the old one, each promoted or left alone, in the same order. -/
  table : StatusTable.Holds statusOut (ls.map (StatusLine.promotedBy blocks))
  /-- The count is that of the lines that have changed. -/
  certified : certified = ls.countP fun l => l.promotedBy blocks ≠ l

/-- Reading a block again changes levels at most, so its key is still the same.
`StatusLine.promotedBy_congr` is applied with it. -/
theorem signees_reread (blocks : List EdgeBlock) :
    (blocks.map EdgeBlock.reread).map EdgeBlock.signee = blocks.map EdgeBlock.signee := by
  rw [List.map_map]
  rfl

/-- A second pass that succeeds promotes a line if and only if it is valid and heads a block of the
corpus that the pass writes. Everything comes from `refine_eq_ok`, which says what was read and
written. -/
theorem refine_promotes {first : FirstPass} {corpus status : Source} {out : Artifacts}
    {counts : Refinement} (h : (refine first corpus status out).result = .ok counts) :
    ∃ texts ls blocks statusOut corpusOut,
      TableRefined status out (refine first corpus status out).written counts.certified texts ls
        blocks statusOut corpusOut := by
  obtain ⟨bs, ls, blocks, hbs, hls, hrefined⟩ := refine_eq_ok h
  obtain ⟨texts, htexts, hparsed⟩ := StatusTable.texts_of_linesFrom hls
  have hpromoted : StatusLine.promotedBy (blocks.map EdgeBlock.reread)
      = StatusLine.promotedBy blocks := StatusLine.promotedBy_congr (signees_reread blocks)
  -- A block that is kept restricts one that was read, and what was read can be written again.
  have hblocks : ∀ b ∈ blocks, b.Writable := by
    intro b hb
    rw [hrefined.kept] at hb
    obtain ⟨c, hc, -, -, rfl⟩ := exists_of_mem_keptBlocks hb
    have hread : .ok c ∈ Corpus.blocks readingRawCorpus corpus := by
      rw [hbs]
      exact List.mem_map_of_mem hc
    exact (Corpus.writable_of_mem_blocks hread).restrict
  -- So can a line: its dates are parts of the text that it was read from.
  have hlines := StatusTable.writable_of_lines hls
  refine ⟨texts, ls, blocks.map EdgeBlock.reread, _, _, htexts, hparsed, hrefined.gain.status,
    hrefined.gain.corpus, Corpus.holds_render hblocks, ?_, ?_⟩
  · show StatusTable.Holds _ (ls.map (StatusLine.promotedBy (blocks.map EdgeBlock.reread)))
    rw [hpromoted]
    apply StatusTable.holds_unlines
    intro l hl
    obtain ⟨m, hm, rfl⟩ := List.mem_map.1 hl
    exact ⟨StatusLine.writable_promotedBy (hlines m hm).1,
      StatusLine.onOneLine_promotedBy (hlines m hm).2⟩
  · show counts.certified
      = ls.countP fun l => l.promotedBy (blocks.map EdgeBlock.reread) ≠ l
    rw [hpromoted]
    exact hrefined.certified

/-! ### Both passes over a dump -/

/-- The ids of the lines that are promoted, as a set: a key with two promoted lines is one
element. -/
def certifiedIds (ls : List StatusLine) : Finset KeyId :=
  ((ls.filter fun l => l.status = .certified).map StatusLine.keyId).toFinset

/-- Membership in `certifiedIds` in terms of lines. -/
theorem mem_certifiedIds_iff {ls : List StatusLine} {id : KeyId} :
    id ∈ certifiedIds ls ↔ ∃ l ∈ ls, l.status = .certified ∧ l.keyId = id := by
  simp only [certifiedIds, List.mem_toFinset, List.mem_map, List.mem_filter, decide_eq_true_eq,
    and_assoc]

/-- What both passes make of a dump whose raw table has the lines `raw` and whose final corpus has
the blocks `blocks`. For a dump more can be said than in `TableRefined`, as every block comes from a
key with a valid line. -/
structure DumpPromoted (p : Resolution) (raw : List StatusLine) (blocks : List EdgeBlock) :
    Prop where
  /-- The first pass has written the lines `raw`. -/
  rawTable : StatusTable.Holds p.raw.status.text raw
  /-- The final table has them in the same order, some promoted. -/
  table : StatusTable.Holds p.final.status.text (raw.map (StatusLine.promotedBy blocks))
  /-- The final corpus is that of `blocks`. -/
  corpus : Corpus.Holds p.final.corpus.text blocks
  /-- A promoted line differs in its first field only. -/
  rewritten : ∀ l ∈ raw, l.Promotes blocks → ∃ rest, l.render = "V;" ++ rest ∧
    (l.promotedBy blocks).render = "VC;" ++ rest
  /-- All others are the same, byte for byte. -/
  unchanged : ∀ l ∈ raw, ¬ l.Promotes blocks → (l.promotedBy blocks).render = l.render
  /-- The promoted keys are those that head a block. -/
  certifiedIds : certifiedIds (raw.map (StatusLine.promotedBy blocks))
    = (blocks.map EdgeBlock.signee).toFinset
  /-- There are as many blocks as promoted keys. -/
  edgeBlocks : p.counts.edgeBlocks
    = (WebOfTrust.certifiedIds (raw.map (StatusLine.promotedBy blocks))).card
  /-- Each promoted key has a promoted line at least. -/
  edgeBlocks_le : p.counts.edgeBlocks ≤ p.counts.certified
  /-- Lines and keys are as many if no promoted key has two valid lines. -/
  edgeBlocks_eq_iff : p.counts.edgeBlocks = p.counts.certified ↔
    ∀ id ∈ WebOfTrust.certifiedIds (raw.map (StatusLine.promotedBy blocks)),
      (validLines raw id).length ≤ 1

variable {settings : ResolutionSettings} {items : List (Nat × Dump.Record)}
  {keys : List CommittedKey} {blocks : List EdgeBlock} {p : Resolution}

/-- The raw table is that of the keys. The first pass has written it so, and `Passed.lines` is what
makes it come back. -/
theorem Passed.holds_raw (h : Passed settings items keys blocks p) :
    StatusTable.Holds p.raw.status.text (statusLines keys) := by
  rw [h.resolved.status]
  exact StatusTable.holds_unlines h.lines

/-- The final table is the raw one with some lines promoted. Promoted lines can be written and read
again, by `StatusLine.writable_promotedBy`. -/
theorem Passed.holds_table (h : Passed settings items keys blocks p) :
    StatusTable.Holds p.final.status.text
      ((statusLines keys).map (StatusLine.promotedBy blocks)) := by
  have hstatus : p.final.status.text = unlines
      (((statusLines keys).map (StatusLine.promotedBy blocks)).map StatusLine.render) := by
    simpa using h.refined.gain.status
  rw [hstatus]
  apply StatusTable.holds_unlines
  intro l hl
  obtain ⟨m, hm, rfl⟩ := List.mem_map.1 hl
  exact ⟨StatusLine.writable_promotedBy (h.lines m hm).1,
    StatusLine.onOneLine_promotedBy (h.lines m hm).2⟩

/-- What is kept can be written again, since it was read. A block of the final corpus is part of one
that the first pass wrote and `EdgeBlock.reread` changed. -/
theorem Passed.writable_blocks (h : Passed settings items keys blocks p) :
    ∀ b ∈ blocks, b.Writable := by
  intro b hb
  rw [h.refined.kept] at hb
  -- The first pass wrote `d`, the second one read it back as `c` and kept some of its entries.
  obtain ⟨c, hc, -, -, rfl⟩ := exists_of_mem_keptBlocks hb
  obtain ⟨d, hd, rfl⟩ := List.mem_map.1 hc
  exact (EdgeBlock.Writable.reread (h.blocks d hd)).restrict

/-- The final corpus is that of the blocks that are kept. `reread` accounts for their levels;
`Passed.reread_blocks` shows later that it changes nothing here. -/
theorem Passed.holds_corpus (h : Passed settings items keys blocks p) :
    Corpus.Holds p.final.corpus.text (blocks.map EdgeBlock.reread) := by
  have hcorpus : p.final.corpus.text = String.join (blocks.map EdgeBlock.render) := by
    simpa using h.refined.gain.corpus
  rw [hcorpus]
  exact Corpus.holds_render h.writable_blocks

/-- The link between the two artifacts: a key of which a block is kept has a valid line. Only
interesting keys have blocks, and `isInteresting` asks for the status. -/
theorem Passed.exists_valid (h : Passed settings items keys blocks p) {b : EdgeBlock}
    (hb : b ∈ blocks) : ∃ l ∈ statusLines keys, l.status = .valid ∧ l.keyId = b.signee := by
  rw [h.refined.kept] at hb
  obtain ⟨c, hc, -, -, rfl⟩ := exists_of_mem_keptBlocks hb
  obtain ⟨d, hd, rfl⟩ := List.mem_map.1 hc
  obtain ⟨k, hk, hinteresting, rfl⟩ := mem_edgeBlocks_iff.1 hd
  rw [CommittedKey.isInteresting, Bool.and_eq_true, decide_eq_true_eq] at hinteresting
  exact ⟨k.statusLine, List.mem_map_of_mem hk, hinteresting.1, rfl⟩

/-- No key heads two blocks of the final corpus, since the second pass leaves out a block of a key
that it trusts already. -/
theorem Passed.nodup_signees (h : Passed settings items keys blocks p) :
    (blocks.map EdgeBlock.signee).Nodup := by
  rw [h.refined.kept]
  exact nodup_signees_keptBlocks {} _

/-- The lines that are promoted, block by block: each block brings the valid lines of its key. -/
theorem Passed.certified_eq_length (h : Passed settings items keys blocks p) :
    p.counts.certified
      = ((blocks.map EdgeBlock.signee).flatMap (validLines (statusLines keys))).length := by
  rw [← countP_mem_eq_length h.nodup_signees, h.refined.certified]
  congr 1
  funext l
  rw [decide_eq_decide, StatusLine.promotedBy_ne_iff, List.mem_map]
  rfl

/-- Each block brings one at least, by `Passed.exists_valid`. -/
theorem Passed.validLines_ne_nil (h : Passed settings items keys blocks p) :
    ∀ id ∈ blocks.map EdgeBlock.signee, validLines (statusLines keys) id ≠ [] := by
  intro id hid
  obtain ⟨b, hb, rfl⟩ := List.mem_map.1 hid
  obtain ⟨l, hl, hvalid⟩ := h.exists_valid hb
  have hmem : l ∈ validLines (statusLines keys) b.signee :=
    List.mem_filter.2 ⟨hl, decide_eq_true hvalid⟩
  exact List.ne_nil_of_mem hmem

/-- No line of a raw table is promoted yet, so the promoted lines of the final one head blocks, and
each block is headed by one. The two directions use `promotedBy_ne_iff` and `exists_valid`. -/
theorem Passed.certifiedIds_eq (h : Passed settings items keys blocks p) :
    certifiedIds ((statusLines keys).map (StatusLine.promotedBy blocks))
      = (blocks.map EdgeBlock.signee).toFinset := by
  ext id
  rw [mem_certifiedIds_iff, List.mem_toFinset, List.mem_map]
  constructor
  · rintro ⟨m, hm, hcertified, rfl⟩
    obtain ⟨l, hl, rfl⟩ := List.mem_map.1 hm
    obtain ⟨k, hk, rfl⟩ := List.mem_map.1 hl
    by_cases hp : k.statusLine.Promotes blocks
    · rw [StatusLine.keyId_promotedBy]
      exact hp.2
    · -- A line that stays as it is was certified by the first pass already, which never happens.
      rw [StatusLine.promotedBy_of_not_promotes hp] at hcertified
      exact absurd hcertified (h.resolved.settled k hk).2
  · rintro ⟨b, hb, rfl⟩
    obtain ⟨l, hl, hvalid, hid⟩ := h.exists_valid hb
    have hp : l.Promotes blocks := ⟨hvalid, b, hb, hid.symm⟩
    exact ⟨_, List.mem_map_of_mem hl, by rw [StatusLine.promotedBy_of_promotes hp],
      by rw [StatusLine.keyId_promotedBy, hid]⟩

/-- Both passes over a dump promote exactly the keys of the final corpus. The counts are compared by
way of `validLines`, whose lists are not empty. -/
theorem bothPasses_promotes {dump : Source} (hpasses : bothPasses settings dump = .ok p) :
    ∃ raw blocks, DumpPromoted p raw blocks := by
  obtain ⟨items, keys, blocks, -, h⟩ := bothPasses_eq_ok hpasses
  have hsignees := signees_reread blocks
  have hpromoted : StatusLine.promotedBy (blocks.map EdgeBlock.reread)
      = StatusLine.promotedBy blocks := StatusLine.promotedBy_congr hsignees
  have hids := h.certifiedIds_eq
  -- No two blocks have the same head, so there are as many of them as promoted ids.
  have hlength : p.counts.edgeBlocks = (blocks.map EdgeBlock.signee).length := by
    rw [List.length_map]
    exact h.refined.edgeBlocks
  have hcard : p.counts.edgeBlocks = (blocks.map EdgeBlock.signee).toFinset.card := by
    rw [List.toFinset_card_of_nodup h.nodup_signees]
    exact hlength
  -- Each head has a valid line at least, and all valid lines of a head are promoted.
  have hle := length_le_length_flatMap h.validLines_ne_nil
  have heq := length_eq_length_flatMap_iff h.validLines_ne_nil
  rw [← hlength, ← h.certified_eq_length] at hle heq
  refine ⟨statusLines keys, blocks.map EdgeBlock.reread, ?_⟩
  exact
    { rawTable := h.holds_raw
      table := hpromoted ▸ h.holds_table
      corpus := h.holds_corpus
      rewritten := fun l _ => StatusLine.render_promotedBy
      unchanged := fun l _ hp => by rw [StatusLine.promotedBy_of_not_promotes hp]
      certifiedIds := by rw [hpromoted, hsignees, hids]
      edgeBlocks := by rw [hpromoted, hids, hcard]
      edgeBlocks_le := hle
      edgeBlocks_eq_iff := by
        rw [heq, hpromoted, hids]
        simp only [List.mem_toFinset] }

/-- Promotion is exact, for any second pass and for both passes over a dump: `refine_promotes` and
`bothPasses_promotes` in one statement. -/
theorem promotion_exact :
    (∀ (first : FirstPass) (corpus status : Source) (out : Artifacts) (counts : Refinement),
      (refine first corpus status out).result = .ok counts →
      ∃ texts ls blocks statusOut corpusOut,
        TableRefined status out (refine first corpus status out).written counts.certified texts ls
          blocks statusOut corpusOut) ∧
    ∀ (settings : ResolutionSettings) (dump : Source) (p : Resolution),
      bothPasses settings dump = .ok p → ∃ raw blocks, DumpPromoted p raw blocks :=
  ⟨fun _ _ _ _ _ => refine_promotes, fun _ _ _ => bothPasses_promotes⟩

/-- Two keys that certify each other, the first of which occurs twice. An analysis of its artifacts
is in `analysis_accounts_repeatedKeyDump`. -/
def repeatedKeyDump : Source := .ofString (unlines
  ["pub::1024:17:AA:2001-01-01::4:", "uid:-::::::::Alice:", "sig:AA:2001-01-01::13::4:17:2",
    "sig:BB:2001-01-02::13::4:17:2",
    "pub::1024:17:BB:2001-01-01::4:", "uid:-::::::::Bob:", "sig:BB:2001-01-01::13::4:17:2",
    "sig:AA:2001-01-02::13::4:17:2",
    "pub::1024:17:AA:2001-01-01::4:", "uid:-::::::::Alice:", "sig:AA:2001-01-01::13::4:17:2"])

/-- Both lines of the first key are promoted, while it has one block. So three lines are counted
where two keys are promoted. -/
theorem promotion_exact_repeatedKeyDump :
    ∃ p, bothPasses {} repeatedKeyDump = .ok p ∧ p.counts.certified = 3 ∧
      p.counts.edgeBlocks = 2 ∧ (∃ raw blocks, DumpPromoted p raw blocks) ∧
      ∃ texts ls blocks statusOut corpusOut, TableRefined (.ofString p.raw.status.text) {}
        (refine p.first (.ofString p.raw.corpus.text) (.ofString p.raw.status.text) {}).written
        3 texts ls blocks statusOut corpusOut := by
  have hcounts : ((bothPasses {} repeatedKeyDump).toOption.map fun p =>
      (p.counts.certified, p.counts.edgeBlocks)) = some (3, 2) := by decide +kernel
  obtain ⟨p, hp, hcounts⟩ := exists_resolution _ hcounts
  obtain ⟨hcertified, hblocks⟩ := Prod.mk.inj hcounts
  refine ⟨p, hp, hcertified, hblocks, promotion_exact.2 _ _ _ hp, ?_⟩
  rw [← hcertified]
  exact promotion_exact.1 _ _ _ _ _ (passes_of_bothPasses hp).2.2.1

end WebOfTrust
