import WebOfTrust.Proofs.CanonicalCorpus
import WebOfTrust.Proofs.StrongSet.KeyStatistics

/-!
# `WebOfTrust.Proofs.FirstLines`: what the first line of a key of the corpus says

Where a key occurs twice in a dump, the final artifacts look at different occurrences. The corpus
has the first block of which anything is left, and an occurrence without a block is no obstacle to
that. The key-status table has a line for each occurrence, of which only the valid ones are
promoted. The key statistics count the first line. So a key whose first occurrence is revoked counts
as revoked, and is in the corpus all the same if a later one is valid.

What holds for every dump is that some line of a key of the corpus is as it should be, and that the
first one is if its occurrence is valid.

- `StatusTable.Leads`: what is said of the lines of one key;
- `Passed.leads`: why that holds of a key with a valid line;
- `first_lines_of_corpus`: the lines of the keys of the corpus, and what the statistics count.
-/

set_option autoImplicit false

namespace WebOfTrust

open Dump StatusTable Text

/-! ### The lines of one key -/

namespace StatusTable

/-- The first line of a key is at the same place in both tables, since a promotion keeps the ids. -/
theorem first?_map_promotedBy (blocks : List EdgeBlock) (ls : List StatusLine) (id : KeyId) :
    first? (ls.map (StatusLine.promotedBy blocks)) id
      = (first? ls id).map (StatusLine.promotedBy blocks) := by
  rw [first?, first?, List.find?_map]
  simp only [Function.comp_def, StatusLine.keyId_promotedBy]

/-- Of the lines of a key in the final table one has a good status at least. The first one has if
the first one of the raw table is valid, and otherwise it is that line unchanged. -/
structure Leads (good : KeyStatus → Prop) (raw final : List StatusLine) (id : KeyId) : Prop where
  /-- Some line of the key is good. -/
  some_good : ∃ m ∈ final, m.keyId = id ∧ good m.status
  /-- The first one need not be that line. -/
  first : ∃ l m, first? raw id = some l ∧ first? final id = some m ∧
    (good m.status ↔ l.status = .valid) ∧ (l.status ≠ .valid → m = l)

/-- If no key has two lines, the first one is the good one, because it is the only one. -/
theorem Leads.good_first {good : KeyStatus → Prop} {raw final : List StatusLine} {id : KeyId}
    (h : Leads good raw final id) (hnodup : (final.map StatusLine.keyId).Nodup) :
    ∃ m, first? final id = some m ∧ good m.status := by
  obtain ⟨m, hm, rfl, hgood⟩ := h.some_good
  exact ⟨m, first?_of_nodup hnodup hm, hgood⟩

end StatusTable

/-! ### Both passes over a dump -/

variable {settings : ResolutionSettings} {items : List (Nat × Record)}
  {keys : List CommittedKey} {blocks : List EdgeBlock} {p : Resolution}

namespace Passed

/-- The final table has a line for each key of the dump, in the order of the dump. Neither pass
drops a line. -/
theorem keyIds_final {dump : Source} (h : Passed settings items keys blocks p)
    (hitems : records dump = items.map .ok) :
    ((statusLines keys).map (StatusLine.promotedBy blocks)).map StatusLine.keyId
      = Dump.keyIds dump := by
  rw [← h.resolved.keyIds_eq hitems, statusLines, List.map_map, List.map_map]
  exact List.map_congr_left fun k _ => StatusLine.keyId_promotedBy blocks k.statusLine

/-- A key with a valid line, if the second pass makes good lines of the valid ones and of no others.
`leads_signee` and `leads_issuer` are this with two notions of a good line. -/
theorem leads (h : Passed settings items keys blocks p) {good : KeyStatus → Prop} {id : KeyId}
    (hvalid : ∃ l ∈ statusLines keys, l.status = .valid ∧ l.keyId = id)
    (hgood : ∀ l : StatusLine, l.status = .valid → l.keyId = id →
      good (l.promotedBy blocks).status)
    (hbad : ∀ status, good status → status = .valid ∨ status = .certified) :
    Leads good (statusLines keys) ((statusLines keys).map (StatusLine.promotedBy blocks)) id := by
  obtain ⟨v, hv, hvalid, rfl⟩ := hvalid
  refine ⟨⟨_, List.mem_map_of_mem hv, StatusLine.keyId_promotedBy blocks v, hgood v hvalid rfl⟩, ?_⟩
  obtain ⟨l, hl⟩ := exists_first? hv
  obtain ⟨hmem, hid⟩ := mem_of_first? hl
  have hunchanged : l.status ≠ .valid → l.promotedBy blocks = l := fun hne =>
    StatusLine.promotedBy_of_not_promotes fun hp => hne hp.1
  refine ⟨l, l.promotedBy blocks, hl, by rw [first?_map_promotedBy, hl, Option.map_some], ⟨?_, ?_⟩,
    hunchanged⟩
  · intro hm
    by_contra hne
    rw [hunchanged hne] at hm
    -- The first pass certifies no key, so a line that is not valid is not certified either.
    obtain ⟨k, hk, rfl⟩ := List.mem_map.1 hmem
    exact (hbad _ hm).elim hne (h.resolved.settled k hk).2
  · exact fun hl => hgood l hl hid

/-- The signees of the corpus: their valid lines are promoted, so that a good line is a certified
one. -/
theorem leads_signee (h : Passed settings items keys blocks p) {b : EdgeBlock} (hb : b ∈ blocks) :
    Leads (· = .certified) (statusLines keys)
      ((statusLines keys).map (StatusLine.promotedBy blocks)) b.signee := by
  refine h.leads (h.exists_valid hb) (fun l hvalid hid => ?_) fun _ hs => .inr hs
  rw [StatusLine.promotedBy_of_promotes ⟨hvalid, b, hb, hid.symm⟩]

/-- Its issuers: they are interesting, so they have valid lines, which may be promoted. A good line
is a valid or a certified one, therefore. -/
theorem leads_issuer (h : Passed settings items keys blocks p) {b : EdgeBlock} (hb : b ∈ blocks)
    {s : Signature} (hs : s ∈ b.entries) :
    Leads (fun status => status = .valid ∨ status = .certified) (statusLines keys)
      ((statusLines keys).map (StatusLine.promotedBy blocks)) s.issuer := by
  obtain ⟨-, -, -, -, -, hissuer⟩ := h.exists_key_of_hasEdge ⟨b, hb, rfl, s, hs, rfl⟩
  obtain ⟨k, hk, hinteresting, hid⟩ := (h.resolved.interesting _).1 hissuer
  have hvalid := (CommittedKey.isInteresting_iff.1 hinteresting).1
  refine h.leads ⟨k.statusLine, List.mem_map_of_mem hk, hvalid, hid⟩ (fun l hl _ => ?_) fun _ => id
  by_cases hp : l.Promotes blocks
  · rw [StatusLine.promotedBy_of_promotes hp]
    exact .inr rfl
  · rw [StatusLine.promotedBy_of_not_promotes hp]
    exact .inl hl

end Passed

/-- What both passes over a dump with the ids `ids` say of the keys of the corpus `blocks`, in the
raw and in the final table. A reader of the final table that takes first lines gets what
`statistics` says. -/
structure CorpusLines (ids : List KeyId) (p : Resolution) (raw final : List StatusLine)
    (blocks : List EdgeBlock) : Prop where
  /-- The raw table has the lines `raw`. -/
  rawTable : StatusTable.Holds p.raw.status.text raw
  /-- The final one has the lines `final`. -/
  table : StatusTable.Holds p.final.status.text final
  /-- The final corpus has the blocks `blocks`. -/
  corpus : Corpus.Holds p.final.corpus.text blocks
  /-- A key that heads a block has a certified line. -/
  signees : ∀ b ∈ blocks, Leads (· = .certified) raw final b.signee
  /-- A key that issues a certification has a valid or a certified one. -/
  issuers : ∀ b ∈ blocks, ∀ s ∈ b.entries,
    Leads (fun status => status = .valid ∨ status = .certified) raw final s.issuer
  /-- If no id occurs twice, all first lines are as they should be. -/
  distinct : ids.Nodup → ∀ b ∈ blocks,
    (∃ m, first? final b.signee = some m ∧ m.status = .certified) ∧
      ∀ s ∈ b.entries, ∃ m, first? final s.issuer = some m ∧
        (m.status = .valid ∨ m.status = .certified)
  /-- The key statistics count the first lines, each under its status. -/
  statistics : ∀ a : Analyzer, ∃ statistics,
    a.loadStatus (.ofString p.final.status.text) = .ok { a with keys := some statistics } ∧
      statistics.totals = { KeyTotals.ofLines (firstLines final) with
        reachable := a.reachable.size, strong := a.graph.size }
  /-- Of each key these are its first line and no other. -/
  counted : ∀ id, (firstLines final).filter (fun l => l.keyId = id) = (first? final id).toList

/-- Both passes say of the keys of the corpus what `CorpusLines` asks for. -/
theorem Passed.corpusLines {dump : Source} (h : Passed settings items keys blocks p)
    (hitems : records dump = items.map .ok) :
    CorpusLines (Dump.keyIds dump) p (statusLines keys)
      ((statusLines keys).map (StatusLine.promotedBy blocks)) blocks where
  rawTable := h.holds_raw
  table := h.holds_table
  corpus := h.holds_final
  signees _ hb := h.leads_signee hb
  issuers _ hb _ hs := h.leads_issuer hb hs
  distinct hnodup b hb := by
    -- The table has the ids of the dump, line by line.
    rw [← h.keyIds_final hitems] at hnodup
    exact ⟨(h.leads_signee hb).good_first hnodup,
      fun s hs => (h.leads_issuer hb hs).good_first hnodup⟩
  statistics a := a.loadStatus_totals h.holds_table.read
  counted := filter_firstLines _

/-- The keys of the corpus have good lines, which are their first ones where the first occurrences
are valid. Without that, `revoked_first_line_of_corpus` shows a first line that is not. -/
theorem first_lines_of_corpus {dump : Source} (hpasses : bothPasses settings dump = .ok p) :
    ∃ raw final blocks, CorpusLines (Dump.keyIds dump) p raw final blocks := by
  obtain ⟨items, keys, blocks, hitems, h⟩ := bothPasses_eq_ok hpasses
  exact ⟨_, _, blocks, h.corpusLines hitems⟩

/-- Two keys that certify each other. The first occurs twice, and its second occurrence is flagged
as revoked. -/
def laterRevokedDump : Source := .ofString (unlines
  ["pub::1024:17:AA:2001-01-01::4:", "uid:-::::::::Alice:", "sig:AA:2001-01-01::13::4:17:2",
    "sig:BB:2001-01-02::13::4:17:2",
    "pub::1024:17:BB:2001-01-01::4:", "uid:-::::::::Bob:", "sig:BB:2001-01-01::13::4:17:2",
    "sig:AA:2001-01-02::13::4:17:2",
    "pub:r:1024:17:AA:2001-01-01::4:"])

/-- The first line of the key is promoted. The line of its second occurrence says that the key is
revoked, and stays. -/
theorem first_lines_of_corpus_laterRevokedDump :
    ∃ p, bothPasses {} laterRevokedDump = .ok p ∧
      p.final.status.text = unlines ["VC;AA;17;1024;2001-01-01;;4;1",
        "VC;BB;17;1024;2001-01-01;;4;1", "Ro;AA;17;1024;2001-01-01;;4;0"] ∧
      ∃ raw final blocks, CorpusLines (Dump.keyIds laterRevokedDump) p raw final blocks := by
  have hstatus : ((bothPasses {} laterRevokedDump).toOption.map fun p => p.final.status.text)
      = some (unlines ["VC;AA;17;1024;2001-01-01;;4;1", "VC;BB;17;1024;2001-01-01;;4;1",
        "Ro;AA;17;1024;2001-01-01;;4;0"]) := by
    rw [laterRevokedDump, Source.ofString_unlines]
    decide +kernel
  obtain ⟨p, hp, hstatus⟩ := exists_resolution _ hstatus
  exact ⟨p, hp, hstatus, first_lines_of_corpus hp⟩

/-- Two keys that certify each other. The first occurs twice, and its first occurrence is flagged as
revoked. -/
def firstRevokedDump : Source := .ofString (unlines
  ["pub:r:1024:17:AA:2001-01-01::4:",
    "pub::1024:17:AA:2001-01-01::4:", "uid:-::::::::Alice:", "sig:AA:2001-01-01::13::4:17:2",
    "sig:BB:2001-01-02::13::4:17:2",
    "pub::1024:17:BB:2001-01-01::4:", "uid:-::::::::Bob:", "sig:BB:2001-01-01::13::4:17:2",
    "sig:AA:2001-01-02::13::4:17:2"])

/-- The first line of the key says that it is revoked, and the statistics count it so, while it
heads a block of the final corpus and certifies the other key there. -/
theorem revoked_first_line_of_corpus :
    ∃ p, bothPasses {} firstRevokedDump = .ok p ∧
      p.final.corpus.text = "pAA\nsBB;2001-01-02;;;3;17;2;4\npBB\nsAA;2001-01-02;;;3;17;2;4\n" ∧
      (StatusTable.lines (.ofString p.final.status.text)).map
          (Except.map fun l => (l.keyId.text, l.status))
        = [.ok ("AA", .revokedByOwner), .ok ("AA", .certified), .ok ("BB", .certified)] ∧
      (({ workers := 1, currentYear := 2001 } : Analyzer).loadStatus
          (.ofString p.final.status.text)).toOption.bind (fun a =>
            a.keys.map fun statistics => (statistics.totals.keys, statistics.totals.revoked))
        = some (2, 1) := by
  -- Both passes are run; the table is read from the text that they write.
  have htexts : ((bothPasses {} firstRevokedDump).toOption.map fun p =>
      (p.final.corpus.text, p.final.status.text))
        = some ("pAA\nsBB;2001-01-02;;;3;17;2;4\npBB\nsAA;2001-01-02;;;3;17;2;4\n",
          unlines ["Ro;AA;17;1024;2001-01-01;;4;0", "VC;AA;17;1024;2001-01-01;;4;1",
            "VC;BB;17;1024;2001-01-01;;4;1"]) := by
    rw [firstRevokedDump, Source.ofString_unlines]
    decide +kernel
  obtain ⟨p, hp, htexts⟩ := exists_resolution _ htexts
  obtain ⟨hcorpus, hstatus⟩ := Prod.mk.inj htexts
  refine ⟨p, hp, hcorpus, ?_, ?_⟩
  · rw [hstatus, Source.ofString_unlines]
    decide +kernel
  · rw [hstatus, Source.ofString_unlines]
    decide +kernel

end WebOfTrust
