import WebOfTrust.Proofs.Artifacts
import WebOfTrust.Proofs.Corpus

/-!
# `WebOfTrust.Proofs.CorpusCodec`: what a corpus keeps of its blocks

The code of a level says which of the four defined ones it is, and has one value for all others. So
writing and reading is not the identity: it takes every block to its normal form, in which the
unknown levels are one. Behind the first reading nothing changes any more, and whatever is written
from then on is the same text. That is so for any corpus that is read without error, also for one
that was written elsewhere, with blank lines in it or blanks behind its lines.

- `EdgeBlock.reread_eq_normalized`: what comes back of a block;
- `corpus_written_and_read`: blocks that are written, and blocks that are read.
-/

set_option autoImplicit false

namespace WebOfTrust

open Text

/-! ### Normal forms -/

/-- The level with one unknown level for all of them, the one whose code is `otherCode`. -/
def CertificationLevel.normalized : CertificationLevel → CertificationLevel
  | .unknown _ => .unknown otherCode
  | level => level

/-- A level is written as its code and read as its normal form. All levels but the unknown ones are
their own normal form. -/
theorem CertificationLevel.ofByte_code (level : CertificationLevel) :
    ofByte level.code = level.normalized := by
  cases level <;> rfl

/-- The certification with its level in normal form. Every unknown level becomes the one with
`CertificationLevel.otherCode`. -/
def Signature.normalized (s : Signature) : Signature := { s with level := s.level.normalized }

/-- The block with one unknown level for all of them. Nothing else of a block is lost by writing
it. -/
def EdgeBlock.normalized (b : EdgeBlock) : EdgeBlock :=
  { b with entries := b.entries.map Signature.normalized }

/-- What comes back of a block is its normal form. `reread` is told by the functions of the codec,
and `normalized` is not. -/
theorem EdgeBlock.reread_eq_normalized (b : EdgeBlock) : b.reread = b.normalized := by
  have hentry : Signature.reread = Signature.normalized := funext fun s => by
    rw [Signature.reread, CertificationLevel.ofByte_code, Signature.normalized]
  rw [reread, normalized, hentry]

/-- Of a whole corpus the normal form comes back, block by block. `reread` and `normalized` differ
in how they are defined: by a text, or by the level alone. -/
theorem Corpus.map_reread (bs : List EdgeBlock) :
    bs.map EdgeBlock.reread = bs.map EdgeBlock.normalized :=
  List.map_congr_left fun b _ => b.reread_eq_normalized

/-! ### Blocks that can be written -/

/-- A certification whose algorithms have numbers and whose texts have neither semicolons nor line
feeds. Its level and its version may be any. -/
structure Signature.Encodable (s : Signature) : Prop where
  /-- The algorithm is not one of the unknown ones under the number of a known one. -/
  algorithm : ∃ n, PublicKeyAlgorithm.ofByte n = s.algorithm
  /-- Neither is the hash algorithm. -/
  hash : ∃ n, HashAlgorithm.ofByte n = s.hash
  /-- These are the only fields that are written as they are. -/
  texts : ∀ f ∈ [s.date, s.expires, s.flags], ';' ∉ f.toList ∧ '\n' ∉ f.toList

/-- An encodable certification has what the lemmas about reading and writing ask for. The first
two parts say that `ofByte` gives the algorithm, which is what `Signature.Writable` has as an
equation. -/
theorem Signature.Encodable.writable {s : Signature} (h : s.Encodable) :
    s.Writable ∧ s.OnOneLine := by
  obtain ⟨a, ha⟩ := h.algorithm
  obtain ⟨b, hb⟩ := h.hash
  obtain ⟨hdate, hexpires, hflags⟩ : _ ∧ _ ∧ _ := by
    simpa only [List.mem_cons, List.not_mem_nil, or_false, forall_eq_or_imp, forall_eq]
      using h.texts
  refine ⟨⟨?_, ?_, hdate.1, hexpires.1, hflags.1⟩, ⟨hdate.2, hexpires.2, hflags.2⟩⟩
  · rw [← ha, PublicKeyAlgorithm.toByte_ofByte]
  · rw [← hb, HashAlgorithm.toByte_ofByte]

/-! ### Writing and reading -/

/-- A block is written to faultless artifacts, whatever is in it. The text that it adds is told by
`gain_writeBlock`. -/
theorem Artifacts.Faultless.writeBlock {out : Artifacts} (h : out.Faultless) (b : EdgeBlock) :
    ∃ out', out.writeBlock b = .ok out' ∧ out'.Faultless ∧ out.Gain out' "" b.render := by
  obtain ⟨out', hwrite, h'⟩ := h.write .edgeCorpus b.pieces
  exact ⟨out', hwrite, h', gain_writeBlock hwrite⟩

namespace Corpus

/-- `text` is what the blocks are written as, from the first one on. The writer is the one of the
passes, `Artifacts.writeBlock`. -/
def Written (bs : List EdgeBlock) (text : String) : Prop :=
  ∃ out, bs.foldlM Artifacts.writeBlock {} = .ok out ∧ out.corpus.text = text

/-- Blocks are written as their renderings, one behind the other. The sinks are faultless, so
`Written` holds of every list of blocks. -/
theorem written_render (bs : List EdgeBlock) :
    Written bs (String.join (bs.map EdgeBlock.render)) := by
  obtain ⟨out, hout, hgain⟩ := Artifacts.faultless_empty.foldlM (fun h b => h.writeBlock b) bs
  exact ⟨out, hout, by simpa using hgain.corpus⟩

/-- Blocks are written as their normal forms are, so the bytes stay the same however often a corpus
is read and written. -/
theorem join_render_normalized (bs : List EdgeBlock) :
    String.join ((bs.map EdgeBlock.normalized).map EdgeBlock.render)
      = String.join (bs.map EdgeBlock.render) := by
  rw [← map_reread, List.map_map]
  exact congrArg _ (List.map_congr_left fun b _ => b.render_reread)

end Corpus

/-- Blocks that are written come back in their normal form. Blocks that are read can be written,
come back in their normal form, and are written the same from then on. The `stage` of a reader only
matters to its errors, and there are none. -/
theorem corpus_written_and_read :
    (∀ (stage : String) (bs : List EdgeBlock), (∀ b ∈ bs, ∀ s ∈ b.entries, s.Encodable) →
      ∃ text, Corpus.Written bs text ∧
        Corpus.blocks stage (.ofString text) = (bs.map EdgeBlock.normalized).map .ok) ∧
    ∀ (stage : String) (source : Source) (bs : List EdgeBlock),
      Corpus.blocks stage source = bs.map .ok →
      ∃ text, Corpus.Written bs text ∧
        Corpus.blocks stage (.ofString text) = (bs.map EdgeBlock.normalized).map .ok ∧
        Corpus.Written (bs.map EdgeBlock.normalized) text := by
  have readBack : ∀ (stage : String) (bs : List EdgeBlock), (∀ b ∈ bs, b.Writable) →
      Corpus.blocks stage (.ofString (String.join (bs.map EdgeBlock.render)))
        = (bs.map EdgeBlock.normalized).map .ok := fun stage bs h => by
    rw [Corpus.blocks_render stage h, Corpus.map_reread]
  constructor
  · intro stage bs h
    exact ⟨_, Corpus.written_render bs,
      readBack stage bs fun b hb s hs => (h b hb s hs).writable⟩
  · intro stage source bs hread
    -- The reader has taken the texts from between semicolons, so they have none.
    have hwritable : ∀ b ∈ bs, b.Writable := fun b hb =>
      Corpus.writable_of_mem_blocks (by rw [hread]; exact List.mem_map_of_mem hb)
    refine ⟨_, Corpus.written_render bs, readBack stage bs hwritable, ?_⟩
    rw [← Corpus.join_render_normalized]
    exact Corpus.written_render _

/-- A block without certifications, and one with two, of which the first has an unknown level and a
carriage return at the end of its date. The second has algorithms without names. -/
def twoBlocks : List EdgeBlock :=
  [⟨.ofText "AA", []⟩,
    ⟨.ofText "BB",
      [⟨.ofText "CC", "2001-01-02\r", "", "P", .unknown 7, .dsa, .sha1, 4⟩,
        ⟨.ofText "DD", "", "", "", .generic, .unknown 99, .privateUse 100, 0⟩]⟩]

/-- A corpus with a blank line, blanks behind a line, a level that is out of range, and no line feed
at its end. It is read without error, and written in another spelling. -/
def looseCorpus : Source := .ofString "pAA\n\n \npBB  \r\nsCC;2001;;;9;17;2;4\t"

/-- Both parts at once: `twoBlocks` are encodable and come back, and `looseCorpus` is read as two
blocks. -/
theorem corpus_written_and_read_twoBlocks :
    (∃ text, Corpus.Written twoBlocks text ∧
      Corpus.blocks "" (.ofString text) = (twoBlocks.map EdgeBlock.normalized).map .ok) ∧
    ∃ bs, Corpus.blocks "" looseCorpus = bs.map .ok ∧ bs.length = 2 ∧
      ∃ text, Corpus.Written bs text ∧
        Corpus.blocks "" (.ofString text) = (bs.map EdgeBlock.normalized).map .ok ∧
        Corpus.Written (bs.map EdgeBlock.normalized) text := by
  constructor
  · refine corpus_written_and_read.1 "" twoBlocks fun b hb s hs => ?_
    simp only [twoBlocks, List.mem_cons, List.not_mem_nil, or_false] at hb
    rcases hb with rfl | rfl
    · cases hs
    · simp only [List.mem_cons, List.not_mem_nil, or_false] at hs
      rcases hs with rfl | rfl
      · exact ⟨⟨17, rfl⟩, ⟨2, rfl⟩, by decide⟩
      · exact ⟨⟨99, rfl⟩, ⟨100, rfl⟩, by decide⟩
  · have hread : Corpus.blocks "" looseCorpus
        = [⟨⟨"AA", by decide⟩, []⟩,
            ⟨⟨"BB", by decide⟩,
              [⟨⟨"CC", by decide⟩, "2001", "", "", .unknown 9, .dsa, .sha1, 4⟩]⟩].map .ok := by
      rfl
    exact ⟨_, hread, rfl, corpus_written_and_read.2 "" looseCorpus _ hread⟩

end WebOfTrust
