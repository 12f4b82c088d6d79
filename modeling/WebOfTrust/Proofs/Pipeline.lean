import WebOfTrust.Proofs.FirstPass
import WebOfTrust.Proofs.Refinement

/-!
# `WebOfTrust.Proofs.Pipeline`: the second pass behind the first

`bothPasses` puts the passes together: the second one reads the texts that the first one wrote.
Where both succeed, the texts between them may be forgotten, since the second pass reads of them
what the first one had in mind. That is not so for every dump (a date with a semicolon gives a line
of nine fields), but then the second pass fails.

- `bothPasses_eq_ok`: where both passes succeed, what they leave in terms of the keys of the dump.
-/

set_option autoImplicit false

namespace WebOfTrust

open Dump Resolver Text

/-! ### Both passes -/

/-- What both passes leave: the results and the artifacts of the first one, and those of the
second. -/
structure Resolution where
  /-- What the first pass hands on in memory. -/
  first : FirstPass
  /-- The artifacts of the first pass, which the second one reads. -/
  raw : Artifacts
  /-- What the second pass has counted. -/
  counts : Refinement
  /-- The artifacts that are published. -/
  final : Artifacts

/-- Both passes over a dump. The second one reads the texts that the first one wrote, so whatever
does not survive writing and reading is lost between them. -/
def bothPasses (settings : ResolutionSettings) (dump : Source) :
    Except ResolutionError Resolution := do
  let raw := resolve settings dump {}
  let first ← raw.result
  let final := refine first (.ofString raw.written.corpus.text)
    (.ofString raw.written.status.text) {}
  let counts ← final.result
  return { first, raw := raw.written, counts, final := final.written }

/-- The two passes of a resolution that succeeds, each by itself. Theorems about one pass are
applied to a whole resolution by it. -/
theorem passes_of_bothPasses {settings : ResolutionSettings} {dump : Source} {p : Resolution}
    (h : bothPasses settings dump = .ok p) :
    (resolve settings dump {}).result = .ok p.first ∧
      p.raw = (resolve settings dump {}).written ∧
      (refine p.first (.ofString p.raw.corpus.text) (.ofString p.raw.status.text) {}).result
        = .ok p.counts ∧
      p.final = (refine p.first (.ofString p.raw.corpus.text) (.ofString p.raw.status.text)
        {}).written := by
  simp only [bothPasses, except_bind_eq_ok, except_pure_eq_ok] at h
  obtain ⟨first, hfirst, counts, hcounts, rfl⟩ := h
  exact ⟨hfirst, rfl, hcounts, rfl⟩

/-- Of a resolution of which something is known, everything else is there as well. Concrete
resolutions are evaluated for a number only, and their theorems get the whole `Resolution` by
this. -/
theorem exists_resolution {α : Type} {settings : ResolutionSettings} {dump : Source}
    (f : Resolution → α) {a : α} (h : (bothPasses settings dump).toOption.map f = some a) :
    ∃ p, bothPasses settings dump = .ok p ∧ f p = a := by
  obtain ⟨p, hp, ha⟩ := Option.map_eq_some_iff.1 h
  cases hb : bothPasses settings dump with
  | error e =>
    rw [hb] at hp
    cases hp
  | ok q =>
    rw [hb] at hp
    obtain rfl := Option.some.inj hp
    exact ⟨q, rfl, ha⟩

/-! ### What the second pass reads of the first -/

/-- What a second pass that succeeds reads of a table is what was written, since all that could come
back otherwise is refused. A semicolon in a date makes a ninth field, so the line is refused. -/
theorem StatusTable.eq_of_lines {ls ls' : List StatusLine}
    (hline : ∀ l ∈ ls, l.OnOneLine) (hsettled : ∀ l ∈ ls, l.status ≠ .unvalidated)
    (halgorithm : ∀ l ∈ ls, PublicKeyAlgorithm.ofByte l.algorithm.toByte = l.algorithm)
    (hread : lines (.ofString (unlines (ls.map StatusLine.render))) = ls'.map .ok) :
    (∀ l ∈ ls, l.Writable) ∧ ls' = ls := by
  -- A semicolon too many would have made the reader fail, so every line is writable.
  have hfree := separator_free_of_lines hline hread
  have hwritable : ∀ l ∈ ls, l.Writable := fun l hl =>
    ⟨hsettled l hl, halgorithm l hl, (hfree l hl).1, (hfree l hl).2⟩
  rw [lines_unlines fun l hl => ⟨hwritable l hl, hline l hl⟩] at hread
  exact ⟨hwritable, (map_ok_inj.1 hread).symm⟩

/-- So is what it reads of a corpus, up to the levels of the certifications, which come back as
`Signature.reread` has them. -/
theorem Corpus.eq_of_blocks {stage : String} {bs bs' : List EdgeBlock}
    (hplain : ∀ b ∈ bs, ∀ s ∈ b.entries, s.Plain)
    (hread : blocks stage (.ofString (String.join (bs.map EdgeBlock.render))) = bs'.map .ok) :
    (∀ b ∈ bs, b.Writable) ∧ bs' = bs.map EdgeBlock.reread := by
  have hfree := separator_free_of_blocks (fun b hb s hs => (hplain b hb s hs).toOnOneLine) hread
  have hwritable : ∀ b ∈ bs, b.Writable := fun b hb s hs =>
    have hs' := hplain b hb s hs
    have hf := hfree b hb s hs
    ⟨⟨hs'.algorithm, hs'.hash, hf.1, hf.2.1, hf.2.2⟩, hs'.toOnOneLine⟩
  rw [blocks_render stage hwritable] at hread
  exact ⟨hwritable, (map_ok_inj.1 hread).symm⟩

/-- The certifications of the raw blocks are those of the dump, so they are plain.
`CommittedKey.Plain` has it of the key, and a block lists what the key holds. -/
theorem plain_of_mem_edgeBlocks {keys : List CommittedKey} (hplain : ∀ k ∈ keys, k.Plain) :
    ∀ b ∈ edgeBlocks keys, ∀ s ∈ b.entries, s.Plain := by
  intro b hb s hs
  obtain ⟨k, hk, -, rfl⟩ := mem_edgeBlocks_iff.1 hb
  obtain ⟨c, hc, rfl⟩ := List.mem_map.1 hs
  exact (hplain k hk).certifications c hc

/-- The lines of the raw table are single lines of text, since the records of the dump are. -/
theorem onOneLine_statusLines {keys : List CommittedKey} (hplain : ∀ k ∈ keys, k.Plain) :
    ∀ l ∈ statusLines keys, l.OnOneLine := by
  intro l hl
  obtain ⟨k, hk, rfl⟩ := List.mem_map.1 hl
  exact ⟨(hplain k hk).record.created, (hplain k hk).record.expires⟩

/-- What both passes leave of a dump with the records `items` and the keys `keys`, if the second one
keeps `blocks`. Theorems about both passes are proved from these facts, and no longer from the
passes. -/
structure Passed (settings : ResolutionSettings) (items : List (Nat × Record))
    (keys : List CommittedKey) (blocks : List EdgeBlock) (p : Resolution) : Prop where
  /-- What the first pass has left. -/
  resolved : Resolved settings items p.first p.raw keys
  /-- What the second one makes of it. It has read the lines as they were, and the blocks as they
  come back. -/
  refined : Refined p.first ((edgeBlocks keys).map EdgeBlock.reread) (statusLines keys) {} p.final
    blocks p.counts
  /-- The lines between the passes are written and read without loss. -/
  lines : ∀ l ∈ statusLines keys, l.Writable ∧ l.OnOneLine
  /-- So are the blocks, but for their levels. -/
  blocks : ∀ b ∈ edgeBlocks keys, b.Writable

/-- Both passes that succeed leave what `Passed` says. The texts between them are read as what was
written, by `StatusTable.eq_of_lines` and `Corpus.eq_of_blocks`. -/
theorem bothPasses_eq_ok {settings : ResolutionSettings} {dump : Source} {p : Resolution}
    (h : bothPasses settings dump = .ok p) :
    ∃ items keys blocks, records dump = items.map .ok ∧ Passed settings items keys blocks p := by
  obtain ⟨hfirst, hraw, hcounts, hfinal⟩ := passes_of_bothPasses h
  obtain ⟨items, keys, hitems, hresolved⟩ := resolve_eq_ok hfirst
  obtain ⟨bs, ls, blocks, hbs, hls, hrefined⟩ := refine_eq_ok hcounts
  rw [← hraw] at hresolved
  rw [← hfinal] at hrefined
  -- From here on, the texts between the passes are those of `keys`.
  have hplain := hresolved.plain hitems
  rw [hresolved.corpus] at hbs
  rw [hresolved.status] at hls
  obtain ⟨hblocks, rfl⟩ := Corpus.eq_of_blocks (plain_of_mem_edgeBlocks hplain) hbs
  have line : ∀ l ∈ statusLines keys, ∃ k ∈ keys, k.statusLine = l := fun l => List.mem_map.1
  have honeLine := onOneLine_statusLines hplain
  obtain ⟨hlines, rfl⟩ := StatusTable.eq_of_lines honeLine
    (fun l hl => by
      obtain ⟨k, hk, rfl⟩ := line l hl
      exact (hresolved.settled k hk).1)
    (fun l hl => by
      obtain ⟨k, hk, rfl⟩ := line l hl
      exact (hplain k hk).record.algorithm) hls
  exact ⟨items, keys, blocks, hitems, hresolved, hrefined,
    fun l hl => ⟨hlines l hl, honeLine l hl⟩, hblocks⟩

end WebOfTrust
