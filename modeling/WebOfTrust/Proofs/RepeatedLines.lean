import WebOfTrust.Proofs.CanonicalCorpus
import WebOfTrust.Proofs.CorpusCodec
import WebOfTrust.Proofs.FixedPoint

/-!
# `WebOfTrust.Proofs.RepeatedLines`: lines that come twice in the final corpus

The second pass compares certifications and writes lines. A key heads one block, and in a block each
certification comes once. A line says everything of a certification but which of the unknown levels
it has, so a line comes twice exactly if the raw block has two certifications that differ in nothing
else. The first pass never writes such a block, since it writes one code for all unknown levels; a
corpus from elsewhere may have one.

- `distinct_eq_eraseDups`: what is left of a list without its repetitions;
- `Signature.corpusLine_eq_iff`: the certifications with one line;
- `refine_repeats_iff`: the blocks of the final corpus, and when a line comes twice in one of them.
-/

set_option autoImplicit false

namespace WebOfTrust

open Text

/-! ### Without repetitions -/

/-- Dropping repetitions and filtering can be exchanged, so it does not matter which of them a pass
does first. -/
theorem distinct_filter (p : Signature → Bool) (l : List Signature) :
    distinct (l.filter p) = (distinct l).filter p := by
  induction l with
  | nil => rfl
  | cons s l ih =>
    by_cases hs : p s
    · rw [List.filter_cons_of_pos hs, distinct, distinct, ih, List.filter_cons_of_pos hs,
        List.filter_filter, List.filter_filter]
      simp only [Bool.and_comm]
    · rw [List.filter_cons_of_neg hs, distinct, ih, List.filter_cons_of_neg hs, List.filter_filter]
      refine List.filter_congr fun t _ => ?_
      -- What passes `p` is not `s`.
      by_cases ht : p t
      · have hne : t ≠ s := fun heq => hs (heq ▸ ht)
        simp [ht, hne]
      · simp [ht]

/-- `distinct` keeps the first of equal elements, as `List.eraseDups` does. The latter is the
specification, and lemmas of core apply to it. -/
theorem distinct_eq_eraseDups (l : List Signature) : distinct l = l.eraseDups := by
  -- On the length, as both functions filter before they go on.
  induction hn : l.length using Nat.strongRecOn generalizing l with
  | ind n ih =>
    cases l with
    | nil => rfl
    | cons s l =>
      have hlength : (l.filter fun t => !t == s).length < n := by
        have := List.length_filter_le (fun t => !t == s) l
        rw [List.length_cons] at hn
        omega
      have hne : (fun t : Signature => decide (t ≠ s)) = fun t => !t == s := by
        funext t
        by_cases ht : t = s <;> simp [ht]
      rw [List.eraseDups_cons, ← ih _ hlength _ rfl, distinct_filter, distinct, hne]

/-! ### Lines -/

namespace Signature

variable {s t : Signature}

/-- What a level becomes on its way through a text is its normal form. `Signature.normalized` names
it without mentioning a text. -/
theorem reread_eq_normalized (s : Signature) : s.reread = s.normalized := by
  rw [reread, CertificationLevel.ofByte_code, normalized]

/-- A line says all of a certification but which of the unknown levels it has, since each of those
is written `255`. So lines are equal where `Signature.normalized` is. -/
theorem corpusLine_eq_iff (hs : s.Writable) (ht : t.Writable) :
    s.corpusLine = t.corpusLine ↔ s.normalized = t.normalized := by
  rw [← reread_eq_normalized, ← reread_eq_normalized]
  constructor
  · intro hline
    have hread := ofCorpusLine_corpusLine hs
    rw [hline, ofCorpusLine_corpusLine ht] at hread
    exact (Except.ok.inj hread).symm
  · intro heq
    rw [← s.corpusLine_reread, heq, corpusLine_reread]

end Signature

namespace EdgeBlock

/-- The lines of the certifications of a block, without its header. Whether one of them comes twice
is the question of this module. -/
def lines (b : EdgeBlock) : List String := b.entries.map Signature.corpusLine

/-- In what is left of a block a line comes twice if two of its certifications differ in their
unknown levels only. `distinct` compares certifications, and such two are different ones. -/
theorem not_nodup_lines_restrict_iff {interesting : KeySet KeyId} {b : EdgeBlock}
    (h : b.Writable) : ¬ (b.restrict interesting).lines.Nodup ↔
      ∃ s ∈ b.entries, ∃ t ∈ b.entries, s.issuer ∈ interesting ∧ t.issuer ∈ interesting ∧
        s ≠ t ∧ s.normalized = t.normalized := by
  -- The entries are distinct, so a repeated line is one of two different entries.
  have hentries : (b.restrict interesting).entries.Nodup := nodup_distinct _
  have hline : ∀ s ∈ b.entries, ∀ t ∈ b.entries,
      s.corpusLine = t.corpusLine ↔ s.normalized = t.normalized := fun s hs t ht =>
    Signature.corpusLine_eq_iff (h s hs).1 (h t ht).1
  rw [lines, List.nodup_map_iff_inj_on hentries]
  constructor
  · intro hnodup
    by_contra hnone
    refine hnodup fun s hs t ht heq => ?_
    obtain ⟨hs, hissuer⟩ := mem_entries_restrict.1 hs
    obtain ⟨ht, hissuer'⟩ := mem_entries_restrict.1 ht
    by_contra hne
    exact hnone ⟨s, hs, t, ht, hissuer, hissuer', hne, (hline s hs t ht).1 heq⟩
  · rintro ⟨s, hs, t, ht, hissuer, hissuer', hne, heq⟩ hinj
    exact hne (hinj s (mem_entries_restrict.2 ⟨hs, hissuer⟩) t
      (mem_entries_restrict.2 ⟨ht, hissuer'⟩) ((hline s hs t ht).2 heq))

end EdgeBlock

/-! ### The final corpus -/

/-- `blocks` is what is left of a raw corpus, with the lines that come twice in it. -/
structure Corpus.Selected (interesting : KeySet KeyId) (raw blocks : List EdgeBlock) : Prop where
  /-- No key heads two blocks. -/
  signees : (blocks.map EdgeBlock.signee).Nodup
  /-- A block has the certifications by interesting keys in the first raw block of its key that has
  any, each of them once and in their order. A line comes twice in it if two of them differ in
  nothing but their unknown levels. -/
  first : ∀ b ∈ blocks, ∃ r,
    raw.find? (fun r => r.signee = b.signee ∧ ∃ s ∈ r.entries, s.issuer ∈ interesting) = some r ∧
      b.entries = (r.entries.filter fun s => interesting.contains s.issuer).eraseDups ∧
      (¬ b.lines.Nodup ↔
        ∃ s ∈ r.entries, ∃ t ∈ r.entries, s.issuer ∈ interesting ∧ t.issuer ∈ interesting ∧
          s ≠ t ∧ s.normalized = t.normalized)

/-- A second pass that succeeds, over any corpus, writes blocks of different keys, and says when a
line comes twice in one of them. Nothing is assumed of how the corpus was made. -/
theorem refine_repeats_iff {first : FirstPass} {corpus status : Source} {out : Artifacts}
    {counts : Refinement} (h : (refine first corpus status out).result = .ok counts) :
    ∃ raw blocks : List EdgeBlock, ∃ text : String,
      Corpus.blocks readingRawCorpus corpus = raw.map .ok ∧
      (refine first corpus status out).written.corpus.text = out.corpus.text ++ text ∧
      (Source.ofString text).textLines
        = (blocks.flatMap fun b => CorpusLine.headerText b.signee :: b.lines).map .ok ∧
      Corpus.Selected first.interesting raw blocks := by
  obtain ⟨raw, ls, blocks, hraw, -, hrefined⟩ := refine_eq_ok h
  -- What was read can be written, and so can what is left of it.
  have hwritable : ∀ r ∈ raw, r.Writable := fun r hr =>
    Corpus.writable_of_mem_blocks (by rw [hraw]; exact List.mem_map_of_mem hr)
  have hblocks : ∀ b ∈ blocks, b.Writable := fun b hb => by
    rw [hrefined.kept] at hb
    obtain ⟨r, hr, -, -, rfl⟩ := exists_of_mem_keptBlocks hb
    exact (hwritable r hr).restrict
  refine ⟨raw, blocks, _, hraw, hrefined.gain.corpus,
    Corpus.textLines_render fun b hb s hs => (hblocks b hb s hs).2, ?_⟩
  rw [hrefined.kept]
  refine ⟨nodup_signees_keptBlocks {} raw, fun b hb => ?_⟩
  obtain ⟨r, hr, rfl⟩ := find?_of_mem_keptBlocks hb
  exact ⟨r, hr, distinct_eq_eraseDups _,
    EdgeBlock.not_nodup_lines_restrict_iff (hwritable r (List.mem_of_find?_eq_some hr))⟩

/-- A first pass that found two interesting keys. The examples of this module and of the accounts of
blocks run over it. -/
def twoInteresting : FirstPass := { interesting := .ofList [.ofText "AA", .ofText "BB"] }

/-- A block with two certifications of unknown levels. The levels 7 and 9 are both outside the four
that have codes of their own. -/
def unknownLevelsCorpus : Source := .ofString (unlines
  ["pAA", "sBB;2001-01-01;;;7;17;2;4", "sBB;2001-01-01;;;9;17;2;4"])

/-- Both certifications of the block are counted. `distinct` sees two different certifications. -/
theorem refine_unknownLevelsCorpus :
    (refine twoInteresting unknownLevelsCorpus (.ofString "") {}).result
        = .ok { edgeBlocks := 1, certifications := 2 } ∧
      (refine twoInteresting unknownLevelsCorpus (.ofString "") {}).written.corpus.text
        = "pAA\nsBB;2001-01-01;;;255;17;2;4\nsBB;2001-01-01;;;255;17;2;4\n" := by
  rw [unknownLevelsCorpus, Source.ofString_unlines]
  decide +kernel

/-- Both certifications are kept, and they have one line. A reader of the final corpus cannot tell
them apart any more. -/
theorem repeated_line_of_unknown_levels :
    ∃ counts line,
      (refine twoInteresting unknownLevelsCorpus (.ofString "") {}).result = .ok counts ∧
      (refine twoInteresting unknownLevelsCorpus (.ofString "") {}).written.corpus.text
        = unlines ["pAA", line, line] :=
  ⟨_, "sBB;2001-01-01;;;255;17;2;4", refine_unknownLevelsCorpus⟩

/-- The equivalence at this corpus: the two certifications that it asks for are those with the
levels 7 and 9. -/
theorem refine_repeats_iff_unknownLevels :
    (refine twoInteresting unknownLevelsCorpus (.ofString "") {}).result
        = .ok { edgeBlocks := 1, certifications := 2 } ∧
      ∃ raw blocks : List EdgeBlock, ∃ text : String,
        Corpus.blocks readingRawCorpus unknownLevelsCorpus = raw.map .ok ∧
        "pAA\nsBB;2001-01-01;;;255;17;2;4\nsBB;2001-01-01;;;255;17;2;4\n" = "" ++ text ∧
        (Source.ofString text).textLines
          = (blocks.flatMap fun b => CorpusLine.headerText b.signee :: b.lines).map .ok ∧
        Corpus.Selected twoInteresting.interesting raw blocks := by
  obtain ⟨hresult, htext⟩ := refine_unknownLevelsCorpus
  have h := refine_repeats_iff hresult
  rw [htext] at h
  exact ⟨hresult, h⟩

end WebOfTrust
