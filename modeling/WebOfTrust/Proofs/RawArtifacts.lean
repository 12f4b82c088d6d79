import WebOfTrust.Proofs.CanonicalCorpus

/-!
# `WebOfTrust.Proofs.RawArtifacts`: the first pass says what it wrote

The result of the first pass comes from two places. The resolver keeps the set of interesting keys
and counts the keys, while blocks are counted where they are written, and a key that is completed by
a further one goes a different way from the last key of the dump. Both are told by the keys that are
handed back, one for each `pub` record, so they agree, whether or not ids occur twice.

Nothing is read here, so semicolons do no harm: this holds of every dump that the first pass
accepts, also of those that keep the second one from reading the artifacts.

- `Corpus.headers_render`: the headers of a corpus, by its lines;
- `raw_artifacts_agree`: the artifacts and the result.
-/

set_option autoImplicit false

namespace WebOfTrust

open Dump Resolver Text

/-! ### Lines of the artifacts -/

/-- The key that an item is, if it is one. It is `Dump.Item.keyId?` with the whole record. -/
def Dump.Item.pub? : Item → Option PubRecord
  | .ok (_, .pub record) => some record
  | _ => none

/-- The keys of a dump, as its records have them. Other records, and lines that cannot be read, are
passed over. -/
def Dump.pubs (dump : Source) : List PubRecord := (records dump).filterMap Item.pub?

/-- The line of a valid key begins with `V` and its id. -/
theorem StatusLine.render_valid {l : StatusLine} (h : l.status = .valid) :
    ∃ rest, l.render = "V;" ++ l.keyId.text ++ ";" ++ rest := by
  refine ⟨ofFields ';' l.fields.tail.tail, String.toList_inj.1 ?_⟩
  rw [render_eq, h]
  simp [fields, ofFields, join, KeyStatus.code]

namespace Corpus

/-- The id in a header, if that is what a line of text is. A line that cannot be read is no
header. -/
def header? : Except IoError String → Option KeyId
  | .error _ => none
  | .ok text =>
    match CorpusLine.parse text with
    | .ok (.header signee) => some signee
    | _ => none

/-- The ids in the headers of a corpus. Other lines may be of any kind, so this is a weaker reading
than `Corpus.blocks`. -/
def headers (corpus : Source) : List KeyId := corpus.textLines.filterMap header?

/-- A header that is written is recognised, under the id that it was written for. It follows from
`CorpusLine.parse_headerText`. -/
theorem header?_headerText (signee : KeyId) :
    header? (.ok (CorpusLine.headerText signee)) = some signee := by
  simp only [header?, CorpusLine.parse_headerText]

/-- The line of a certification is no header, whether or not it can be read. A semicolon in a date
makes it unreadable, but never a header. -/
theorem header?_corpusLine (s : Signature) : header? (.ok s.corpusLine) = none := by
  simp only [header?, CorpusLine.parse_corpusLine]
  cases Signature.ofCorpusLine s.corpusLine <;> rfl

/-- The headers of a corpus that was written are the keys of its blocks. The entries need no more
than to be single lines; they may be such that nobody can read them. -/
theorem headers_render {bs : List EdgeBlock} (h : ∀ b ∈ bs, ∀ s ∈ b.entries, s.OnOneLine) :
    headers (.ofString (String.join (bs.map EdgeBlock.render))) = bs.map EdgeBlock.signee := by
  rw [headers, textLines_render h]
  clear h
  induction bs with
  | nil => rfl
  | cons b bs ih =>
    -- No line of an entry looks like a header.
    have hentries :
        ((b.entries.map Signature.corpusLine).map Except.ok).filterMap header? = [] := by
      rw [List.map_map, List.filterMap_eq_nil_iff]
      intro line hline
      obtain ⟨s, -, rfl⟩ := List.mem_map.1 hline
      exact header?_corpusLine s
    rw [List.flatMap_cons, List.map_append, List.filterMap_append, ih, EdgeBlock.textLines,
      List.map_cons, List.filterMap_cons_some (header?_headerText b.signee), hentries]
    rfl

end Corpus

/-! ### The pass -/

/-- The keys that the calls of a pass open are those of the dump. The left side is what
`head_segments` speaks of. -/
theorem filterMap_pub?_passCalls {dump : Source} {items : List (Nat × Record)}
    (h : records dump = items.map .ok) :
    (passCalls items).filterMap Call.pub? = Dump.pubs dump := by
  rw [Dump.pubs, h, passCalls, List.filterMap_append, List.filterMap_map, List.filterMap_map]
  have hpub : Call.pub? ∘ (fun r : Nat × Record => .push r.2) = Item.pub? ∘ .ok :=
      funext fun r => by
    obtain ⟨n, _ | _ | _ | _ | _⟩ := r <;> rfl
  rw [hpub, List.filterMap_cons_none rfl, List.filterMap_nil, List.append_nil]

/-! ### Blocks -/

/-- The levels of a block say nothing of its order, which is by issuers. `EdgeBlock.reread` keeps
the issuers, by `Signature.issuer_reread`. -/
theorem EdgeBlock.ascending_reread_iff {b : EdgeBlock} : b.reread.Ascending ↔ b.Ascending := by
  simp only [Ascending, reread, List.pairwise_map, Signature.issuer_reread]

/-- A block of the raw corpus is that of a key: it is not empty, its issuers are in their order, and
the key is none of them. -/
theorem Resolved.shape_of_mem_edgeBlocks {settings : ResolutionSettings}
    {items : List (Nat × Record)} {first : FirstPass} {raw : Artifacts} {keys : List CommittedKey}
    (h : Resolved settings items first raw keys) {b : EdgeBlock} (hb : b ∈ edgeBlocks keys) :
    b.entries ≠ [] ∧ b.Ascending ∧ ∀ s ∈ b.entries, s.issuer ≠ b.signee := by
  obtain ⟨k, hk, hinteresting, rfl⟩ := mem_edgeBlocks_iff.1 hb
  obtain ⟨segment, -, hcommit⟩ := h.exists_segment hk
  have hsound : k.Sound := Segment.sound_commit hcommit
  refine ⟨?_, EdgeBlock.ascending_reread_iff.1 hsound.ascending_readBlock, fun s hs => ?_⟩
  · obtain ⟨-, issuer, hissuer⟩ := CommittedKey.isInteresting_iff.1 hinteresting
    obtain ⟨s, hs, -⟩ := hsound.exists_issuer_iff.2 hissuer
    exact List.ne_nil_of_mem hs
  · exact Segment.ne_keyId_of_mem_certifications hcommit (hsound.exists_issuer_iff.1 ⟨s, hs, rfl⟩)

/-! ### The artifacts and the result -/

/-- The keys that are valid and hold a certification by somebody else. The pass calls them
interesting; the name here says what it tests. -/
def certifiedKeys (keys : List CommittedKey) : List CommittedKey :=
  keys.filter fun k => k.status = .valid ∧ k.certifications.isEmpty = false

/-- What a first pass over `dump` with the result `first` has written, in terms of the keys of the
dump: `status` to the key-status table and `corpus` to the edge corpus. Texts are described by their
lines, as they need not be readable: a date may hold a semicolon. -/
structure RawArtifacts (settings : ResolutionSettings) (dump : Source) (first : FirstPass)
    (status corpus : String) (keys : List CommittedKey) (blocks : List EdgeBlock) : Prop where
  /-- The keys are those of the dump, each settled from its own records. -/
  committed : ∃ items, records dump = items.map .ok ∧
    (segments (passCalls items)).mapM (Segment.commit settings) = .ok keys
  /-- The keys are those of the `pub` records, in their order. -/
  pubs : keys.map CommittedKey.record = Dump.pubs dump
  /-- The table has a line for each key. -/
  tableLines : (Source.ofString status).textLines
    = ((statusLines keys).map StatusLine.render).map .ok
  /-- The number of keys in the result is that of the lines. -/
  keyCount : (Source.ofString status).textLines.length = first.keys
  /-- The corpus has the lines of `blocks`. -/
  corpusLines : (Source.ofString corpus).textLines = (blocks.flatMap EdgeBlock.textLines).map .ok
  /-- The headers in the text are those of the blocks. -/
  signees : blocks.map EdgeBlock.signee = Corpus.headers (.ofString corpus)
  /-- Their number is in the result. -/
  edgeBlocks : (Corpus.headers (.ofString corpus)).length = first.edgeBlocks
  /-- The result calls a key interesting if it has a header. -/
  interesting : ∀ id, id ∈ Corpus.headers (.ofString corpus) ↔ id ∈ first.interesting
  /-- The headers are those of the certified keys, in their order. -/
  headers : Corpus.headers (.ofString corpus) = (certifiedKeys keys).map CommittedKey.keyId
  /-- Each of them has a valid line. -/
  valid : ∀ k ∈ certifiedKeys keys, ∃ rest,
    k.statusLine.render = "V;" ++ k.keyId.text ++ ";" ++ rest
  /-- What makes it one is a certification by another key. -/
  thirdParty : ∀ k ∈ keys, ∀ issuer ∈ k.certifications, issuer ≠ k.keyId
  /-- No block is empty. -/
  nonempty : ∀ b ∈ blocks, b.entries ≠ []
  /-- The issuers of a block come in the order of their ids. -/
  ascending : ∀ b ∈ blocks, b.Ascending
  /-- No key heads a block with a certification of its own. -/
  foreign : ∀ b ∈ blocks, ∀ s ∈ b.entries, s.issuer ≠ b.signee

/-- `CommittedKey.isInteresting` is the test of `certifiedKeys`. -/
theorem certifiedKeys_eq (keys : List CommittedKey) :
    certifiedKeys keys = keys.filter CommittedKey.isInteresting := by
  refine List.filter_congr fun k _ => ?_
  rw [CommittedKey.isInteresting, Bool.decide_and]
  cases k.certifications.isEmpty <;> simp

/-- The first pass writes what it says it has written: table, corpus and result agree for any dump
over which the pass succeeds. -/
theorem raw_artifacts_agree {settings : ResolutionSettings} {dump : Source} {out : Artifacts}
    {first : FirstPass} (h : (resolve settings dump out).result = .ok first) :
    ∃ status corpus keys blocks, out.Gain (resolve settings dump out).written status corpus ∧
      RawArtifacts settings dump first status corpus keys blocks := by
  obtain ⟨items, keys, raw, hitems, hresolved, hgain, hpubs, hkeys, hblocks⟩ := resolve_gain h
  have hplain := hresolved.plain hitems
  -- The fields come from single lines of the dump, so none of them has a line feed.
  have hone : ∀ b ∈ edgeBlocks keys, ∀ s ∈ b.entries, s.OnOneLine := fun b hb s hs =>
    (plain_of_mem_edgeBlocks hplain b hb s hs).toOnOneLine
  have hlines : (Source.ofString raw.status.text).textLines
      = ((statusLines keys).map StatusLine.render).map .ok := by
    rw [hresolved.status, StatusTable.textLines_render (onOneLine_statusLines hplain)]
  have hheaders : Corpus.headers (.ofString raw.corpus.text)
      = (edgeBlocks keys).map EdgeBlock.signee := by
    rw [hresolved.corpus, Corpus.headers_render hone]
  -- The keys with a block are those that are valid and certified by others.
  have hselected : Corpus.headers (.ofString raw.corpus.text)
      = (certifiedKeys keys).map CommittedKey.keyId := by
    rw [hheaders, signees_edgeBlocks, certifiedKeys_eq]
  refine ⟨_, _, keys, edgeBlocks keys, hgain, ?_⟩
  exact {
    committed := ⟨items, hitems, hresolved.committed⟩
    pubs := hpubs.trans (filterMap_pub?_passCalls hitems)
    tableLines := hlines
    keyCount := by
      rw [hlines, List.length_map, List.length_map, statusLines, List.length_map, hkeys]
    corpusLines := by rw [hresolved.corpus, Corpus.textLines_render hone]
    signees := hheaders.symm
    edgeBlocks := by rw [hheaders, List.length_map, hblocks]
    interesting := fun id => by
      rw [hselected, certifiedKeys_eq, hresolved.interesting]
      simp only [List.mem_map, List.mem_filter, and_assoc]
    headers := hselected
    valid := fun k hk =>
      StatusLine.render_valid (of_decide_eq_true (List.mem_filter.1 hk).2).1
    thirdParty := fun k hk issuer hissuer => by
      obtain ⟨segment, -, hcommit⟩ := hresolved.exists_segment hk
      exact Segment.ne_keyId_of_mem_certifications hcommit hissuer
    nonempty := fun b hb => (hresolved.shape_of_mem_edgeBlocks hb).1
    ascending := fun b hb => (hresolved.shape_of_mem_edgeBlocks hb).2.1
    foreign := fun b hb => (hresolved.shape_of_mem_edgeBlocks hb).2.2 }

/-- A key that occurs twice, with a semicolon in its date the first time, and a key without records
between its occurrences. -/
def unreadableDump : Source := .ofString (unlines
  ["pub::1024:17:AA:2001-01-01;::4:", "uid:-::::::::Alice:", "sig:AA:2001-01-01::13::4:17:2",
    "sig:CC:2001-01-02::13::4:17:2", "sig:BB:2001-01-02::13::4:17:2",
    "pub::1024:17:BB:2001-01-01::4:",
    "pub::1024:17:AA:2001-01-01::4:", "uid:-::::::::Alice:", "sig:AA:2001-01-01::13::4:17:2",
    "sig:DD:2001-01-02::13::4:17:2"])

/-- Two blocks have one key between them. The second pass does not get past the date, but what the
first one wrote is as `RawArtifacts` says. -/
theorem raw_artifacts_agree_unreadableDump :
    ∃ first, (resolve {} unreadableDump {}).result = .ok first ∧ first.keys = 3 ∧
      first.edgeBlocks = 2 ∧ first.interesting.keys.map KeyId.text = ["AA"] ∧
      ∃ status corpus keys blocks,
        Artifacts.Gain {} (resolve {} unreadableDump {}).written status corpus ∧
        RawArtifacts {} unreadableDump first status corpus keys blocks := by
  have hfacts : ((resolve {} unreadableDump {}).result.toOption.map fun first =>
      (first.keys, first.edgeBlocks, first.interesting.keys.map KeyId.text))
        = some (3, 2, ["AA"]) := by
    rw [unreadableDump, Source.ofString_unlines]
    decide +kernel
  cases hfirst : (resolve {} unreadableDump {}).result with
  | error e =>
    rw [hfirst] at hfacts
    cases hfacts
  | ok first =>
    rw [hfirst] at hfacts
    simp only [Except.toOption, Option.map_some, Option.some.injEq, Prod.mk.injEq] at hfacts
    exact ⟨first, rfl, hfacts.1, hfacts.2.1, hfacts.2.2, raw_artifacts_agree hfirst⟩

end WebOfTrust
