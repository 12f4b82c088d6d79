import WebOfTrust.Proofs.Pipeline

/-!
# `WebOfTrust.Proofs.Handover`: what keeps the second pass from reading the first

The fields of the raw artifacts stand between semicolons, and texts of the dump go into them as they
are. In the dump fields stand between colons, so a date or the flags of a record can hold a
semicolon. In the policy table a semicolon does no harm, as only the first one of a line counts
there. Here it gives a field too many.

- `refine_accepts`: a second pass that can read its inputs succeeds, if no sink fails;
- `CommittedKey.SeparatorFree`: a key without a semicolon in the texts that it leaves;
- `handover_iff`: the second pass succeeds behind the first one if all keys are of that kind, and
  for no other dump.
-/

set_option autoImplicit false

namespace WebOfTrust

open Dump Resolver Text

/-! ### The second pass over inputs that can be read -/

/-- Blocks that can be read are gone through to the end, if no sink fails. The sinks are
`Faultless`, which each write preserves. -/
theorem refineBlocks_accepts (interesting : KeySet KeyId) (p : BlockPass) {out : Artifacts}
    (hout : out.Faultless) (bs : List EdgeBlock) :
    ∃ p', (refineBlocks interesting p out (bs.map .ok)).result = .ok p' ∧
      (refineBlocks interesting p out (bs.map .ok)).written.Faultless := by
  induction bs generalizing p out with
  | nil => exact ⟨p, rfl, hout⟩
  | cons b bs ih =>
    -- Whatever the fate of the block is, the artifacts are faultless behind it.
    have hwrite : ∃ out', (p.fate interesting b).write out = .ok out' ∧ out'.Faultless := by
      cases p.fate interesting b with
      | duplicate | dropped => exact ⟨out, rfl, hout⟩
      | written b' => exact hout.write .edgeCorpus b'.pieces
    obtain ⟨out', hwrite, hout'⟩ := hwrite
    simp only [List.map_cons, refineBlocks, hwrite]
    exact ih _ hout'

/-- So are lines. The induction is the same, with `Faultless.writeStatus`. -/
theorem refineStatus_accepts (trusted : KeySet KeyId) (certified : Nat) {out : Artifacts}
    (hout : out.Faultless) (ls : List StatusLine) :
    ∃ n, (refineStatus trusted certified out (ls.map .ok)).result = .ok n ∧
      (refineStatus trusted certified out (ls.map .ok)).written.Faultless := by
  induction ls generalizing certified out with
  | nil => exact ⟨certified, rfl, hout⟩
  | cons l ls ih =>
    obtain ⟨out', hwrite, hout'⟩ := hout.write .keyStatus (l.promote trusted).pieces
    simp only [List.map_cons, refineStatus, Artifacts.writeStatus, hwrite]
    exact ih _ hout'

/-- A second pass fails for its inputs or for its sinks, and for nothing else. It is the direction
that `refine_eq_ok` leaves open. -/
theorem refine_accepts {first : FirstPass} {corpus status : Source} {out : Artifacts}
    {bs : List EdgeBlock} {ls : List StatusLine} (hout : out.Faultless)
    (hbs : Corpus.blocks readingRawCorpus corpus = bs.map .ok)
    (hls : StatusTable.lines status = ls.map .ok) :
    ∃ counts, (refine first corpus status out).result = .ok counts := by
  obtain ⟨p, hp, hcorpus⟩ := refineBlocks_accepts first.interesting {} hout bs
  obtain ⟨n, hn, hstatus⟩ := refineStatus_accepts p.trusted 0 hcorpus ls
  obtain ⟨out', hpolicies, hout'⟩ := hstatus.write .policyUris
    (first.policyUris.retainIssuers first.interesting).pieces
  simp only [refine, refineCorpus, refineTables, hbs, hls, hp, hn, Artifacts.writePolicies,
    hpolicies, hout'.flush]
  exact ⟨_, rfl⟩

/-! ### Keys without semicolons -/

/-- A certification whose texts have no semicolon. These are the fields that the corpus has
verbatim. All other fields are ids and numbers. -/
structure Signature.SeparatorFree (s : Signature) : Prop where
  date : ';' ∉ s.date.toList
  expires : ';' ∉ s.expires.toList
  flags : ';' ∉ s.flags.toList

/-- A key that leaves no semicolon in the raw artifacts. Its certifications are written only if it
is interesting, so only then something is asked of them. -/
structure CommittedKey.SeparatorFree (k : CommittedKey) : Prop where
  /-- The line of a key has its dates verbatim. -/
  created : ';' ∉ k.record.created.toList
  expires : ';' ∉ k.record.expires.toList
  /-- The block of a key has the texts of its certifications verbatim. -/
  certifications : k.isInteresting = true →
    ∀ c ∈ k.certifications.values, c.toSignature.SeparatorFree

/-- Keys without semicolons have lines that come back. That they are settled, with known algorithms,
holds of every key that `resolve` completes. -/
theorem writable_statusLines {settings : ResolutionSettings} {items : List (Nat × Record)}
    {first : FirstPass} {raw : Artifacts} {keys : List CommittedKey}
    (hresolved : Resolved settings items first raw keys) (hplain : ∀ k ∈ keys, k.Plain)
    (hfree : ∀ k ∈ keys, k.SeparatorFree) :
    ∀ l ∈ statusLines keys, l.Writable ∧ l.OnOneLine := by
  intro l hl
  refine ⟨?_, onOneLine_statusLines hplain l hl⟩
  obtain ⟨k, hk, rfl⟩ := List.mem_map.1 hl
  exact ⟨(hresolved.settled k hk).1, (hplain k hk).record.algorithm, (hfree k hk).created,
    (hfree k hk).expires⟩

/-- Keys without semicolons have blocks that come back. `Plain` gives the rest of
`EdgeBlock.Writable`. -/
theorem writable_edgeBlocks {keys : List CommittedKey} (hplain : ∀ k ∈ keys, k.Plain)
    (hfree : ∀ k ∈ keys, k.SeparatorFree) : ∀ b ∈ edgeBlocks keys, b.Writable := by
  intro b hb s hs
  obtain ⟨k, hk, hinteresting, rfl⟩ := mem_edgeBlocks_iff.1 hb
  obtain ⟨c, hc, rfl⟩ := List.mem_map.1 hs
  have hplain := (hplain k hk).certifications c hc
  have hfree := (hfree k hk).certifications hinteresting c hc
  exact ⟨⟨hplain.algorithm, hplain.hash, hfree.date, hfree.expires, hfree.flags⟩,
    hplain.toOnOneLine⟩

/-! ### From one pass to the other -/

/-- What the first pass leaves of a dump can be read by the second one if no key leaves a semicolon,
and only then. One direction writes and reads, and the other one counts fields. -/
theorem Resolved.refine_iff {settings : ResolutionSettings} {items : List (Nat × Record)}
    {first : FirstPass} {raw : Artifacts} {keys : List CommittedKey}
    (hresolved : Resolved settings items first raw keys) (hplain : ∀ k ∈ keys, k.Plain) :
    (∃ counts, (refine first (.ofString raw.corpus.text) (.ofString raw.status.text) {}).result
        = .ok counts) ↔ ∀ k ∈ keys, k.SeparatorFree := by
  rw [hresolved.corpus, hresolved.status]
  constructor
  · rintro ⟨counts, hcounts⟩ k hk
    obtain ⟨bs, ls, -, hbs, hls, -⟩ := refine_eq_ok hcounts
    -- If the table was read, no text in it has a separator.
    obtain ⟨hcreated, hexpires⟩ := StatusTable.separator_free_of_lines
      (onOneLine_statusLines hplain) hls k.statusLine (List.mem_map_of_mem hk)
    refine ⟨hcreated, hexpires, fun hinteresting c hc => ?_⟩
    have hb := mem_edgeBlocks_iff.2 ⟨k, hk, hinteresting, rfl⟩
    -- The same of the corpus, for keys that have a block.
    obtain ⟨hdate, hexpires, hflags⟩ := Corpus.separator_free_of_blocks
      (fun b hb s hs => (plain_of_mem_edgeBlocks hplain b hb s hs).toOnOneLine) hbs _ hb _
      (List.mem_map_of_mem hc)
    exact ⟨hdate, hexpires, hflags⟩
  · intro hfree
    exact refine_accepts Artifacts.faultless_empty
      (Corpus.blocks_render readingRawCorpus (writable_edgeBlocks hplain hfree))
      (StatusTable.lines_unlines (writable_statusLines hresolved hplain hfree))

/-- Behind a first pass that succeeds, the second one succeeds if and only if no key of the dump
leaves a semicolon. The keys are those of `segments`, so the condition can be checked without
running a pass. -/
theorem handover_iff {settings : ResolutionSettings} {dump : Source} {first : FirstPass}
    (hfirst : (resolve settings dump {}).result = .ok first) :
    ∃ items keys, records dump = items.map .ok ∧
      (segments (passCalls items)).mapM (Segment.commit settings) = .ok keys ∧
      ((∃ counts, (refine first (.ofString (resolve settings dump {}).written.corpus.text)
          (.ofString (resolve settings dump {}).written.status.text) {}).result = .ok counts) ↔
        ∀ k ∈ keys, k.SeparatorFree) := by
  obtain ⟨items, keys, hitems, hresolved⟩ := resolve_eq_ok hfirst
  exact ⟨items, keys, hitems, hresolved.committed, hresolved.refine_iff (hresolved.plain hitems)⟩

/-- A revoked key, and a certification of it with a semicolon in its date. The key is not
interesting, so no block has the certification, and the second pass accepts the dump. -/
def revokedKeyDump : Source := .ofString (unlines
  ["pub:r:1024:17:AA:2001-01-01::4:", "uid:-::::::::Alice:", "sig:AA:2001-01-01::13::4:17:2",
    "sig:BB:2001-01-02;::13::4:17:2"])

/-- The key is not interesting, so the certification is not written and does no harm: both passes
succeed. -/
theorem handover_iff_revokedKeyDump :
    ∃ first items keys counts, (resolve {} revokedKeyDump {}).result = .ok first ∧
      records revokedKeyDump = items.map .ok ∧
      (segments (passCalls items)).mapM (Segment.commit {}) = .ok keys ∧
      (∀ k ∈ keys, k.SeparatorFree) ∧
      (refine first (.ofString (resolve {} revokedKeyDump {}).written.corpus.text)
        (.ofString (resolve {} revokedKeyDump {}).written.status.text) {}).result = .ok counts := by
  have hkeys : ((bothPasses {} revokedKeyDump).toOption.map fun p => p.first.keys) = some 1 := by
    decide +kernel
  obtain ⟨p, hp, -⟩ := exists_resolution _ hkeys
  obtain ⟨hfirst, hraw, hcounts, -⟩ := passes_of_bothPasses hp
  rw [hraw] at hcounts
  obtain ⟨items, keys, hitems, hkeys, hiff⟩ := handover_iff hfirst
  exact ⟨p.first, items, keys, p.counts, hfirst, hitems, hkeys, hiff.1 ⟨_, hcounts⟩, hcounts⟩

/-- A key that was created on a date with a semicolon. A dump has its fields between colons, so the
date is one field there. -/
def semicolonDump : Source := .ofString (unlines ["pub::1024:17:AA:2001-01-01;::4:"])

/-- The first pass takes the date as it is, and the second one counts nine fields in the line that
the first one wrote. So not every dump that the first pass accepts is accepted by the second. -/
theorem line_of_semicolon_refused :
    ∃ first, (resolve {} semicolonDump {}).result = .ok first ∧
      (refine first (.ofString (resolve {} semicolonDump {}).written.corpus.text)
          (.ofString (resolve {} semicolonDump {}).written.status.text) {}).result
        = .error (.malformed 1 (.fieldCount .status 9 8)) :=
  ⟨{ keys := 1 }, by decide +kernel, by decide +kernel⟩

end WebOfTrust
