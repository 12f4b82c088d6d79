import WebOfTrust.Proofs.StrongSet.Loading
import WebOfTrust.Proofs.StrongSet.Tally

/-!
# `WebOfTrust.Proofs.StrongSet.CertificationTables`: certification tables lose nothing

An analysis counts each certification that it reads in three tables and in the totals. A
certification is strong if both its ends are nodes and reachable if both are in the connectivity
table, and the loads of an analysis may come in any order, more than once, and may fail half-way.
What makes strong certifications reachable all the same is that a key is in the table before it is a
node (`Analyzer.Regular`).

Conservation alone would hold of tables in which nothing is counted. So the tables are also tied to
the files: the certifications that are counted are those of the corpora that were loaded, of each up
to its first error, with repeats (`Analyzer.Load.signatures`).

- `CertificationTally.Counts.record`: one more certification;
- `Analyzer.Regular.load`: what every load keeps;
- `Analyzer.certification_tables_conserve`: the tables of a report, behind any loads.
-/

set_option autoImplicit false

namespace WebOfTrust

/-! ### Counted certifications -/

/-- A certification, with what an analysis finds out about its ends. The fields carry what the
tables rely on, so no lemma below has to assume it. These are its last two fields. -/
structure CountedCertification where
  /-- The certification itself, with its hash, its version and its level. -/
  signature : Signature
  /-- Both ends are in the connectivity table. -/
  reachable : Bool
  /-- Both ends are nodes. -/
  strong : Bool
  /-- Nodes are in the connectivity table. -/
  nested : strong = true → reachable = true
  /-- The hash algorithm came from its number, so it has a bucket. -/
  hash : HashAlgorithm.ofByte signature.hash.toByte = signature.hash

namespace CertificationCounts

/-- The counts of certifications, as numbers of those with a property. A tally counts them one by
one; the two agree by `ofList_concat`. -/
def ofList (cs : List CountedCertification) : CertificationCounts where
  valid := cs.length
  reachable := cs.countP (·.reachable)
  strong := cs.countP (·.strong)

/-- Strong certifications are reachable, and reachable ones are counted in `valid`. So the three
columns never grow from left to right. -/
structure Nested (c : CertificationCounts) : Prop where
  /-- Both ends of a strong one are in the table. -/
  strong : c.strong ≤ c.reachable
  /-- Every reachable one is valid. -/
  reachable : c.reachable ≤ c.valid

/-- Counts of certifications are `Nested`, since each certification is: its field for strong ends
implies that for reachable ones. -/
theorem nested_ofList (cs : List CountedCertification) : (ofList cs).Nested where
  strong := List.countP_mono_left fun c _ => c.nested
  reachable := List.countP_le_length

/-- One certification more is counted as `increment` does it. -/
theorem ofList_concat (cs : List CountedCertification) (c : CountedCertification) :
    ofList (cs ++ [c]) = CertificationTally.increment c.reachable c.strong (ofList cs) := by
  simp only [ofList, CertificationTally.increment, incrementIf, List.length_append,
    List.length_singleton, List.countP_append, List.countP_singleton]
  cases c.reachable <;> cases c.strong <;> rfl

/-- A breakdown of `totals`: it lists the given buckets, each column sums to its total, and the
counts of every row are nested. -/
structure BrokenDown (totals : CertificationCounts) (buckets : List Nat)
    (rows : List (BreakdownRow CertificationCounts)) : Prop where
  /-- Every bucket has a row, also an empty one. -/
  lists : ListsBuckets buckets rows
  /-- No certification is lost between the rows, and none is counted in two. -/
  valid : columnSum CertificationCounts.valid rows = totals.valid
  /-- The same holds of the reachable ones. -/
  reachable : columnSum CertificationCounts.reachable rows = totals.reachable
  /-- And of the strong ones. -/
  strong : columnSum CertificationCounts.strong rows = totals.strong
  /-- Each row is nested as the totals are. -/
  nested : ∀ r ∈ rows, r.counts.Nested

/-- The rows of a tally of certifications that all fall into its buckets. One that did not would be
in the totals and in no row. `hbuckets` is the condition that excludes it. -/
theorem brokenDown_rows {cs : List CountedCertification} {t : Tally CertificationCounts}
    {buckets : List Nat} {bucket : CountedCertification → Nat}
    (h : t.Counts buckets bucket ofList cs) (hbuckets : ∀ c ∈ cs, bucket c ∈ buckets)
    (label : Nat → String) : BrokenDown (ofList cs) buckets (t.rows label) where
  lists := h.listsBuckets label
  valid := by
    rw [h.columnSum_rows CertificationCounts.valid label
      (fun ys => (congrFun List.countP_true ys).symm) hbuckets]
    exact congrFun List.countP_true cs
  reachable := h.columnSum_rows _ label (fun _ => rfl) hbuckets
  strong := h.columnSum_rows _ label (fun _ => rfl) hbuckets
  nested r hr := by
    rw [h.counts_of_mem_rows hr]
    exact nested_ofList _

end CertificationCounts

open CertificationCounts

/-- The totals are broken down in three ways: by hash algorithm, by version and by level. Every one
of these tables is a `BrokenDown` of the same totals. -/
structure CertificationStatistics.Conserved (s : CertificationStatistics) : Prop where
  /-- The totals are nested. -/
  totals : s.totals.Nested
  /-- By hash algorithm, the unknown ones in a bucket of their own. -/
  byHash : BrokenDown s.totals (HashAlgorithm.buckets.map UInt8.toNat) s.byHash
  /-- By the version of the signature. -/
  byVersion : BrokenDown s.totals versionBuckets s.byVersion
  /-- By the level of the certification. -/
  byLevel : BrokenDown s.totals (CertificationLevel.buckets.map UInt8.toNat) s.byLevel

/-- The certifications that are counted are `signatures`, in the totals and row by row: each falls
into the bucket that it has in the respective table. `Conserved` alone would hold of a report that
counts nothing. -/
structure CertificationStatistics.CountsAll (s : CertificationStatistics)
    (signatures : List Signature) : Prop where
  /-- Each is counted once in the totals. -/
  totals : s.totals.valid = signatures.length
  /-- A row has those with its hash algorithm. -/
  byHash : ∀ r ∈ s.byHash,
    r.counts.valid = signatures.countP fun x => x.hash.bucket.toNat = r.bucket
  /-- A row has those of its version. -/
  byVersion : ∀ r ∈ s.byVersion,
    r.counts.valid = signatures.countP fun x => (versionBucket x.version).toNat = r.bucket
  /-- A row has those of its level. -/
  byLevel : ∀ r ∈ s.byLevel,
    r.counts.valid = signatures.countP fun x => x.level.bucket.toNat = r.bucket

namespace CertificationTally

variable {t : CertificationTally} {cs : List CountedCertification}

/-- The certifications that have been counted are `cs`, in the totals and in each of the tables.
This is the invariant of `CertificationTally.record`. -/
structure Counts (t : CertificationTally) (cs : List CountedCertification) : Prop where
  /-- The totals count all of them. -/
  totals : t.totals = .ofList cs
  /-- Each table counts them by its own bucket. -/
  byHash : Tally.Counts (HashAlgorithm.buckets.map UInt8.toNat)
    (fun c : CountedCertification => c.signature.hash.bucket.toNat) .ofList cs t.byHash
  byVersion : Tally.Counts versionBuckets (fun c : CountedCertification =>
    (versionBucket c.signature.version).toNat) .ofList cs t.byVersion
  byLevel : Tally.Counts (CertificationLevel.buckets.map UInt8.toNat)
    (fun c : CountedCertification => c.signature.level.bucket.toNat) .ofList cs t.byLevel

/-- Before any certification all preset buckets are empty, and so `Counts` holds of no
certifications. -/
theorem counts_empty : Counts {} [] where
  totals := rfl
  byHash := Tally.counts_preset rfl
  byVersion := Tally.counts_preset rfl
  byLevel := Tally.counts_preset rfl

/-- One certification more keeps the invariant. Each of the tables takes it by `Tally.Counts.bump`,
for which it has to fall into a listed bucket. -/
theorem Counts.record (h : t.Counts cs) (c : CountedCertification) :
    (t.record c.signature c.reachable c.strong).Counts (cs ++ [c]) where
  totals := by rw [ofList_concat, ← h.totals, CertificationTally.record]
  byHash := h.byHash.bump (HashAlgorithm.bucket_mem c.hash) fun cs => ofList_concat cs c
  byVersion := h.byVersion.bump (versionBucket_mem _) fun cs => ofList_concat cs c
  byLevel := h.byLevel.bump (CertificationLevel.bucket_mem _) fun cs => ofList_concat cs c

/-- A report of counted certifications conserves them, by `brokenDown_rows` for each of the
tables. -/
theorem Counts.conserved (h : t.Counts cs) : t.finish.Conserved := by
  have htotals : t.finish.totals = .ofList cs := h.totals
  refine ⟨?_, ?_, ?_, ?_⟩ <;> rw [htotals]
  · exact nested_ofList cs
  · exact brokenDown_rows h.byHash (fun c _ => HashAlgorithm.bucket_mem c.hash) _
  · exact brokenDown_rows h.byVersion (fun c _ => versionBucket_mem _) _
  · exact brokenDown_rows h.byLevel (fun c _ => CertificationLevel.bucket_mem _) _

/-- The number of valid certifications in a row, by their signatures. What an analysis finds out
about the ends of a certification has no part in its bucket. So the field `valid` can be compared
with the corpora that were loaded. -/
theorem valid_of_mem_rows {rows : Tally CertificationCounts} {buckets : List Nat}
    {bucket : Signature → Nat} {label : Nat → String}
    (h : Tally.Counts buckets (fun c : CountedCertification => bucket c.signature) .ofList cs rows)
    {r : BreakdownRow CertificationCounts} (hr : r ∈ rows.rows label) :
    r.counts.valid
      = (cs.map CountedCertification.signature).countP fun x => bucket x = r.bucket := by
  rw [h.counts_of_mem_rows hr, ofList, ← List.countP_eq_length_filter, List.countP_map]
  rfl

/-- What has been counted by the tally `t` is counted in the report, in the totals and in each of
the tables. `finish` only lists the buckets. -/
theorem Counts.countsAll (h : t.Counts cs) :
    t.finish.CountsAll (cs.map CountedCertification.signature) where
  totals := by
    have htotals : t.finish.totals = .ofList cs := h.totals
    rw [htotals, List.length_map]
    rfl
  byHash _ hr := valid_of_mem_rows h.byHash hr
  byVersion _ hr := valid_of_mem_rows h.byVersion hr
  byLevel _ hr := valid_of_mem_rows h.byLevel hr

end CertificationTally

/-! ### Loads -/

/-- A centrality table neither adds nodes nor changes their numbers, on any graph. `WellFormed` is
not asked for, as the invariant of this module does not have it. -/
theorem StrongSetGraph.indexOf_applyCentrality (g : StrongSetGraph) (rows : List CentralityRow) :
    (g.applyCentrality rows).1.indexOf = g.indexOf := by
  induction rows generalizing g with
  | nil => rfl
  | cons row rows ih =>
    rw [applyCentrality, ih, applyRow]
    split <;> rfl

namespace Analyzer

/-- A file that is loaded. A connectivity table and a centrality table have been read before,
whereas a corpus and a key-status table are read by the load. The other two are `Source`s,
therefore, and may be refused on the way. -/
inductive Load where
  | connectivity (rows : List ConnectivityRow)
  | centrality (rows : List CentralityRow)
  | corpus (corpus : Source)
  | status (table : Source)

/-- The blocks that a reader gives before its first error, and all blocks if there is none. Those
behind an error are not loaded. -/
def beforeError : List (Except ResolutionError EdgeBlock) → List EdgeBlock
  | .ok b :: rest => b :: beforeError rest
  | _ => []

/-- The certifications that a load counts. Only a corpus has any, and one that fails has those in
front of its error. `beforeError` cuts there. -/
def Load.signatures : Load → List Signature
  | .corpus source =>
    (beforeError (Corpus.blocks Corpus.readingStage source)).flatMap EdgeBlock.entries
  | _ => []

/-- The analysis behind a load. A load that fails leaves what it has changed by then: a corpus its
blocks so far, a key-status table nothing. `StatusTable` errors come before anything is kept, which
is why `getD a` is right. -/
def load (a : Analyzer) : Load → Analyzer
  | .connectivity rows => a.loadConnectivity rows
  | .centrality rows => a.loadCentrality rows
  | .corpus corpus => (a.loadCorpus corpus).1
  | .status table => (a.loadStatus table).toOption.getD a

/-- What every load keeps: nodes are keys of the connectivity table, and the tables have counted the
certifications `signatures`, with something known of the ends of each. -/
structure Regular (a : Analyzer) (signatures : List Signature) : Prop where
  /-- It makes a strong certification a reachable one. -/
  reachable : ∀ k, a.graph.contains k = true → k ∈ a.reachable
  /-- The flags of each certification are those of the time when it was loaded. -/
  counted : ∃ cs : List CountedCertification,
    cs.map CountedCertification.signature = signatures ∧ a.certifications.Counts cs

variable {a : Analyzer} {signatures : List Signature}

/-- An analysis that has loaded nothing is `Regular` with no certifications. It is where the
induction over loads starts. -/
theorem regular_start (settings : AnalyticsSettings) (year : Nat) :
    (start settings year).Regular [] where
  reachable k h := by cases h
  counted := ⟨[], rfl, CertificationTally.counts_empty⟩

/-- A connectivity table adds nodes, and each of them to the reachable set before that. It counts no
certifications. So the field `counted` is untouched. -/
theorem Regular.loadConnectivity (h : a.Regular signatures) (rows : List ConnectivityRow) :
    (a.loadConnectivity rows).Regular signatures := by
  obtain ⟨loaded, repeated, hloaded, heq⟩ := a.loadConnectivity_eq rows
  rw [heq]
  refine ⟨fun k hk => (hloaded.reachable k).2 ?_, ?_⟩
  · rw [show _ = _ from hloaded.graph, StrongSetGraph.contains_addRows] at hk
    -- The row of a strong key is in the table as any other.
    exact hk.imp (h.reachable k) fun hstrong =>
      (List.filter_sublist.map ConnectivityRow.keyId).subset hstrong
  · show ∃ cs, _ ∧ loaded.certifications.Counts cs
    rw [hloaded.frame]
    exact h.counted

/-- A centrality table changes nodes that are there, and adds none.
`StrongSetGraph.indexOf_applyCentrality` is all that is needed. -/
theorem Regular.loadCentrality (h : a.Regular signatures) (rows : List CentralityRow) :
    (a.loadCentrality rows).Regular signatures := by
  refine ⟨fun k hk => h.reachable k ?_, h.counted⟩
  have hk : (a.graph.applyCentrality rows).1.contains k = true := hk
  rwa [StrongSetGraph.contains, StrongSetGraph.indexOf_applyCentrality] at hk

/-- A certification is counted, whatever is known of its ends. That its flags are nested comes from
`Regular.reachable`, for each of its two ends. -/
theorem Regular.loadEntry (h : a.Regular signatures) (signee : KeyId) (missing : KeySet KeyId)
    {s : Signature} (hs : HashAlgorithm.ofByte s.hash.toByte = s.hash) :
    (loadEntry signee (a, missing) s).1.Regular (signatures ++ [s]) := by
  obtain ⟨cs, hsignatures, hcounted⟩ := h.counted
  -- An edge is accepted between nodes only, and nodes are reachable.
  have hnested : (a.graph.addEdge s.issuer signee).2 = true →
      (a.reachable.contains signee && a.reachable.contains s.issuer) = true := by
    rw [StrongSetGraph.addEdge_snd, Option.isSome_iff_exists]
    rintro ⟨⟨i, j⟩, hedge⟩
    obtain ⟨hissuer, hsignee⟩ := StrongSetGraph.edge?_eq_some_iff.1 hedge
    rw [Bool.and_eq_true]
    exact ⟨h.reachable _ (Option.isSome_of_eq_some hsignee),
      h.reachable _ (Option.isSome_of_eq_some hissuer)⟩
  refine ⟨fun k hk => h.reachable k ?_, ⟨_, ?_, hcounted.record ⟨s, _, _, hnested, hs⟩⟩⟩
  swap
  · rw [List.map_append, hsignatures]
    rfl
  have hk : (a.graph.addEdge s.issuer signee).1.contains k = true := hk
  rwa [StrongSetGraph.contains, StrongSetGraph.indexOf_addEdge] at hk

/-- Certifications of one key. The keys that are gathered beside them have no part in the tables.
They are the second component of the fold, `missing`. -/
theorem Regular.foldl_loadEntry (h : a.Regular signatures) (signee : KeyId)
    (missing : KeySet KeyId) {entries : List Signature}
    (hentries : ∀ s ∈ entries, HashAlgorithm.ofByte s.hash.toByte = s.hash) :
    (entries.foldl (Analyzer.loadEntry signee) (a, missing)).1.Regular (signatures ++ entries) := by
  induction entries generalizing a missing signatures with
  | nil =>
    rw [List.append_nil]
    exact h
  | cons s entries ih =>
    have hfirst := h.loadEntry signee missing (hentries s List.mem_cons_self)
    rw [List.foldl_cons, ← List.singleton_append, ← List.append_assoc]
    exact ih hfirst _ fun s' hs' => hentries s' (List.mem_cons_of_mem _ hs')

/-- A block that comes from a corpus, so that its hash algorithms are known under their numbers.
`EdgeBlock.Writable` says so. -/
theorem Regular.loadBlock (h : a.Regular signatures) (missing : KeySet KeyId) {b : EdgeBlock}
    (hb : b.Writable) : (a.loadBlock missing b).1.Regular (signatures ++ b.entries) :=
  h.foldl_loadEntry b.signee _ fun s hs => (hb s hs).1.hash

/-- Blocks up to the first error. Those before it are counted, by induction on what the reader
gives. `beforeError` follows the same recursion. -/
theorem Regular.loadBlocks (h : a.Regular signatures) (missing : KeySet KeyId)
    {items : List (Except ResolutionError EdgeBlock)} (hitems : ∀ b, .ok b ∈ items → b.Writable) :
    (a.loadBlocks missing items).1.Regular
      (signatures ++ (beforeError items).flatMap EdgeBlock.entries) := by
  induction items generalizing a missing signatures with
  | nil =>
    rw [beforeError, List.flatMap_nil, List.append_nil]
    · exact h
    · exact fun _ _ heq => nomatch heq
  | cons item items ih =>
    cases item with
    -- The first error ends the load, so nothing is counted of the blocks behind it.
    | error e =>
      rw [beforeError, List.flatMap_nil, List.append_nil]
      · exact h
      · exact fun _ _ heq => nomatch heq
    | ok b =>
      rw [beforeError, List.flatMap_cons, ← List.append_assoc]
      exact ih (h.loadBlock missing (hitems b List.mem_cons_self)) _
        fun b' hb' => hitems b' (List.mem_cons_of_mem _ hb')

/-- A corpus, whether or not it is read to its end. Behind its end, digest and diagnostics are set,
which the invariant does not mention. A reader gives only `Writable` blocks, by
`Corpus.writable_of_mem_blocks`. -/
theorem Regular.loadCorpus (h : a.Regular signatures) (corpus : Source) :
    (a.loadCorpus corpus).1.Regular (signatures ++ (Load.corpus corpus).signatures) := by
  have hblocks := h.loadBlocks ∅ fun b
    (hb : .ok b ∈ Corpus.blocks Corpus.readingStage corpus) => Corpus.writable_of_mem_blocks hb
  rw [Analyzer.loadCorpus]
  split
  · next hrun =>
    rwa [hrun] at hblocks
  · next hrun =>
    rw [hrun] at hblocks
    exact ⟨hblocks.reachable, hblocks.counted⟩

/-- A key-status table is counted apart from the certifications, in `keys`. If it is refused, the
analysis is the same as before. -/
theorem Regular.loadStatus (h : a.Regular signatures) (table : Source) :
    ((a.loadStatus table).toOption.getD a).Regular signatures := by
  rw [Analyzer.loadStatus]
  cases a.countLines { currentYear := a.currentYear } (StatusTable.lines table) with
  | error e => exact h
  | ok t => exact ⟨h.reachable, h.counted⟩

/-- What each load keeps, one case per kind of file. Only a corpus adds to the certifications that
are counted. It is the step of `Regular.foldl_load`. -/
theorem Regular.load (h : a.Regular signatures) (file : Load) :
    (a.load file).Regular (signatures ++ file.signatures) := by
  cases file with
  | connectivity rows =>
    rw [show (Load.connectivity rows).signatures = [] from rfl, List.append_nil]
    exact h.loadConnectivity rows
  | centrality rows =>
    rw [show (Load.centrality rows).signatures = [] from rfl, List.append_nil]
    exact h.loadCentrality rows
  | corpus corpus => exact h.loadCorpus corpus
  | status table =>
    rw [show (Load.status table).signatures = [] from rfl, List.append_nil]
    exact h.loadStatus table

/-- Loads one after the other, each of which adds the certifications of its own. The induction is on
the files, and `Regular.load` is its step. -/
theorem Regular.foldl_load (h : a.Regular signatures) (files : List Load) :
    (files.foldl Analyzer.load a).Regular (signatures ++ files.flatMap Load.signatures) := by
  induction files generalizing a signatures with
  | nil =>
    rw [List.flatMap_nil, List.append_nil]
    exact h
  | cons file files ih =>
    rw [List.foldl_cons, List.flatMap_cons, ← List.append_assoc]
    exact ih (h.load file)

/-- The tables of a report conserve the counts of certifications, whatever files were loaded in
whatever order, and whichever of the loads failed. What they count are the certifications of the
corpora among the files, each as often as it was loaded. The first part is `Counts.conserved`, the
second one `Counts.countsAll`. -/
theorem certification_tables_conserve (settings : AnalyticsSettings) (year : Nat)
    (files : List Load) :
    (files.foldl load (start settings year)).finish.certifications.Conserved ∧
      (files.foldl load (start settings year)).finish.certifications.CountsAll
        (files.flatMap Load.signatures) := by
  have hregular := (regular_start settings year).foldl_load files
  rw [List.nil_append] at hregular
  obtain ⟨cs, hsignatures, hcounted⟩ := hregular.counted
  exact ⟨hcounted.conserved, hsignatures ▸ hcounted.countsAll⟩

end Analyzer

end WebOfTrust
