import WebOfTrust.Proofs.BlockCounts
import WebOfTrust.Proofs.Sections

/-!
# `WebOfTrust.Proofs.KeyOrder`: the order of the keys of a dump does not matter

A key may be certified by one that comes later in the dump, and the first pass cannot tell whether
that one is interesting. That is why there is a second pass: what it makes of a section depends on
the section and on the set of interesting keys, which is the same for every order of the sections.
If the ids of the keys are distinct, sections in another order give the same lines and the same
blocks, in that order.

- `SectionsResolved.first_eq`: the result of the first pass;
- `FinalSections`: what both passes make of each section;
- `Passed.counts_eq_of_perm`: the counts of the second pass;
- `permuted_sections_pass_alike`: both passes.
-/

set_option autoImplicit false

namespace WebOfTrust

open Dump Resolver Text

/-! ### Sections one by one -/

namespace Dump.Section

/-- The key of a section, if its records are taken. It is a function of the section alone, so
sections can be exchanged together with their keys. -/
def key? (settings : ResolutionSettings) (s : Section) : Option CommittedKey :=
  (s.segment.commit settings).toOption

/-- The line of a section in the final table, if the final corpus has the blocks `blocks`. A section
without a key has no line; `default` stands for that, and never occurs in a pass that succeeds. -/
def finalLine (settings : ResolutionSettings) (blocks : List EdgeBlock) (s : Section) :
    StatusLine :=
  (s.key? settings).elim default fun k => k.statusLine.promotedBy blocks

/-- The block of a section in the final corpus, if it has one: the block of its key, as it is read,
and what is kept of that. -/
def finalBlock (settings : ResolutionSettings) (interesting : KeySet KeyId) (s : Section) :
    Option EdgeBlock :=
  (s.key? settings).bind fun k => k.edgeBlock.bind fun b => b.reread.kept? interesting

end Dump.Section

variable {settings : ResolutionSettings} {dump dump' : Source} {sections sections' : List Section}
  {first first' : FirstPass} {items items' : List (Nat × Record)} {keys keys' : List CommittedKey}
  {blocks blocks' : List EdgeBlock} {p p' : Resolution}

/-! ### The first pass -/

namespace SectionsResolved

/-- What is made of the keys one by one is made of the sections. The lines of the final table are an
instance of it. -/
theorem map_eq {β : Type} {f : CommittedKey → β} {g : Section → β}
    (h : SectionsResolved settings sections first keys)
    (step : ∀ s k, s.segment.commit settings = .ok k → f k = g s) :
    keys.map f = sections.map g :=
  map_of_mapM_eq_ok step (except_mapM_eq_ok.2 h.committed)

/-- So is what is made of some of the keys, such as the blocks of the corpus. -/
theorem filterMap_eq {β : Type} {f : CommittedKey → Option β} {g : Section → Option β}
    (h : SectionsResolved settings sections first keys)
    (step : ∀ s k, s.segment.commit settings = .ok k → f k = g s) :
    keys.filterMap f = sections.filterMap g := by
  have hmap := congrArg (List.filterMap id) (h.map_eq step)
  rwa [List.filterMap_map, List.filterMap_map] at hmap

/-- The ids of the keys are those of the sections, since a key has the record that its section
begins with. -/
theorem keyIds (h : SectionsResolved settings sections first keys) :
    keys.map CommittedKey.keyId = sections.map Section.keyId :=
  h.map_eq fun _ _ hcommit => congrArg PubRecord.keyId (Segment.record_commit hcommit)

/-- Every section has a key, which is that of its first line. A section without one would have
stopped the first pass. -/
theorem exists_key (h : SectionsResolved settings sections first keys) {s : Section}
    (hs : s ∈ sections) : ∃ k ∈ keys, s.key? settings = some k ∧ k.keyId = s.keyId := by
  have hmem : s.segment.commit settings ∈ keys.map .ok := by
    rw [← h.committed]
    exact List.mem_map_of_mem hs
  obtain ⟨k, hk, hcommit⟩ := List.mem_map.1 hmem
  exact ⟨k, hk, by rw [Section.key?, ← hcommit]; rfl,
    congrArg PubRecord.keyId (Segment.record_commit hcommit.symm)⟩

/-- The keys come in the order of the sections, so they are permuted as those are.
`SectionsResolved.committed` relates the two lists member by member. -/
theorem keys_perm (h : SectionsResolved settings sections first keys)
    (h' : SectionsResolved settings sections' first' keys') (hperm : sections.Perm sections') :
    keys.Perm keys' := by
  have step : ∀ (s : Section) (k : CommittedKey), s.segment.commit settings = .ok k →
      some k = s.key? settings := fun s k hcommit => by rw [Section.key?, hcommit]; rfl
  rw [← @List.filterMap_some _ keys, ← @List.filterMap_some _ keys', h.filterMap_eq step,
    h'.filterMap_eq step]
  exact hperm.filterMap _

/-- In another order the sections give the same result. Interesting keys and policies are kept in
tables ordered by their ids, which do not show the order of insertion. -/
theorem first_eq (h : SectionsResolved settings sections first keys)
    (h' : SectionsResolved settings sections' first' keys') (hperm : sections.Perm sections') :
    first' = first := by
  have hkeys := h.keys_perm h' hperm
  have hinteresting : first'.interesting = first.interesting := KeySet.ext_mem fun id => by
    simp only [h.interesting, h'.interesting, hkeys.mem_iff]
  have hpolicies : first'.policyUris = first.policyUris := by
    rw [h.policyUris, h'.policyUris]
    -- The tables are built in different orders, but they declare the same pairs.
    refine (PolicyUriTable.Reachable.empty.foldl_add _).wellFormed.ext
      (PolicyUriTable.Reachable.empty.foldl_add _).wellFormed fun q => ?_
    rw [PolicyUriTable.declares_foldl_add, PolicyUriTable.declares_foldl_add,
      (hperm.flatMap_right Section.policies).mem_iff]
  have hcount : first'.keys = first.keys := by
    rw [h.keyCount, h'.keyCount, hkeys.length_eq]
  have hblocks : first'.edgeBlocks = first.edgeBlocks := by
    rw [h.edgeBlocks, h'.edgeBlocks]
    exact (hkeys.filterMap CommittedKey.edgeBlock).length_eq.symm
  -- All four fields have been compared.
  show FirstPass.mk first'.interesting first'.policyUris first'.keys first'.edgeBlocks
    = FirstPass.mk first.interesting first.policyUris first.keys first.edgeBlocks
  rw [hinteresting, hpolicies, hcount, hblocks]

end SectionsResolved

/-! ### The final artifacts -/

/-- The final artifacts have the lines and the blocks that `line` and `block` give for the sections,
in the order of the sections. -/
structure FinalSections (p : Resolution) (sections : List Section) (line : Section → StatusLine)
    (block : Section → Option EdgeBlock) : Prop where
  /-- The table has a line for each section. -/
  table : StatusTable.Holds p.final.status.text (sections.map line)
  /-- The corpus has a block for each section that has one. -/
  corpus : Corpus.Holds p.final.corpus.text (sections.filterMap block)
  /-- A line is of the key of its section. -/
  lineIds : ∀ s ∈ sections, (line s).keyId = s.keyId
  /-- So is a block. -/
  signees : ∀ s ∈ sections, ∀ b ∈ block s, b.signee = s.keyId

namespace Passed

/-- If the keys are distinct, what is kept of them is kept of the sections, one by one. With two
blocks of one key, what is kept of the second would depend on the first. -/
theorem blocks_eq (h : Passed settings items keys blocks p)
    (hsections : SectionsResolved settings sections p.first keys)
    (hids : (keys.map CommittedKey.keyId).Nodup) :
    blocks = sections.filterMap (Section.finalBlock settings p.first.interesting) := by
  rw [h.refined.kept,
    keptBlocks_eq_filterMap (nodup_signees_readBlocks hids) fun _ _ => Table.not_mem_empty _,
    List.filterMap_map, edgeBlocks, List.filterMap_filterMap]
  refine hsections.filterMap_eq fun s k hcommit => ?_
  rw [Section.finalBlock, Section.key?, hcommit]
  rfl

/-- The final artifacts of both passes, section by section. The functions that give lines and blocks
are `finalLine` and `finalBlock`, and they depend on the other sections only by way of sets. -/
theorem finalSections (h : Passed settings items keys blocks p)
    (hsections : SectionsResolved settings sections p.first keys)
    (hids : (keys.map CommittedKey.keyId).Nodup) :
    FinalSections p sections (Section.finalLine settings blocks)
      (Section.finalBlock settings p.first.interesting) := by
  -- The table has a line for each section, in their order.
  have hlines : (statusLines keys).map (StatusLine.promotedBy blocks)
      = sections.map (Section.finalLine settings blocks) := by
    rw [statusLines, List.map_map]
    refine hsections.map_eq fun s k hcommit => ?_
    rw [Section.finalLine, Section.key?, hcommit]
    rfl
  refine ⟨hlines ▸ h.holds_table, ?_, fun s hs => ?_, fun s hs b hb => ?_⟩
  · rw [← h.blocks_eq hsections hids]
    exact h.holds_final
  · obtain ⟨k, -, hkey, hid⟩ := hsections.exists_key hs
    rw [Section.finalLine, hkey, Option.elim_some, StatusLine.keyId_promotedBy]
    exact hid
  · obtain ⟨k, -, hkey, hid⟩ := hsections.exists_key hs
    rw [Section.finalBlock, hkey, Option.bind_some] at hb
    obtain ⟨c, hc, hb⟩ := Option.bind_eq_some_iff.1 hb
    -- A block that a key gives is headed by that key.
    have hsignee : c.signee = k.keyId := by
      rw [CommittedKey.edgeBlock] at hc
      split at hc <;> cases hc
      rfl
    rw [EdgeBlock.signee_of_mem_kept? hb, ← hid, ← hsignee]
    rfl

/-! ### The counts -/

/-- Distinct keys are counted alike in any order. All counts are sums over lines or over blocks, but
for that of the policies, which comes from the first pass. -/
theorem counts_eq_of_perm (h : Passed settings items keys blocks p)
    (h' : Passed settings items' keys' blocks' p') (hpasses : bothPasses settings dump = .ok p)
    (hpasses' : bothPasses settings dump' = .ok p')
    (hids : (keys.map CommittedKey.keyId).Nodup) (hkeys : keys.Perm keys')
    (hblocks : blocks.Perm blocks') (hfirst : p'.first = p.first) : p'.counts = p.counts := by
  have hraw : ((edgeBlocks keys).map EdgeBlock.reread).Perm
      ((edgeBlocks keys').map EdgeBlock.reread) :=
    (hkeys.filterMap CommittedKey.edgeBlock).map EdgeBlock.reread
  rw [h'.counts_eq hpasses', h.counts_eq hpasses, hfirst,
    foldl_take_of_perm (nodup_signees_readBlocks hids) hraw, StatusLine.promotedBy_of_perm hblocks,
    statusLines, statusLines, (hkeys.map CommittedKey.statusLine).countP_eq]

end Passed

/-! ### Both passes -/

/-- Two resolutions that agree in all but the order of lines and blocks. That order is told by
`FinalSections`, beside it. -/
structure PassedAlike (p p' : Resolution) : Prop where
  /-- The same keys are interesting, and the same policies are declared. -/
  first : p'.first = p.first
  /-- The policy table is the same text. -/
  policies : p'.final.policy.text = p.final.policy.text
  /-- Nothing is counted differently. -/
  counts : p'.counts = p.counts

/-- A first pass and the second one behind it are both passes. It is how a run is put together from
its parts, in `bothPasses_of_perm`. -/
theorem bothPasses_of_passes {counts : Refinement}
    (hfirst : (resolve settings dump {}).result = .ok first)
    (hcounts : (refine first (.ofString (resolve settings dump {}).written.corpus.text)
      (.ofString (resolve settings dump {}).written.status.text) {}).result = .ok counts) :
    ∃ p, bothPasses settings dump = .ok p := by
  simp only [bothPasses, hfirst, except_bind_ok, hcounts]
  exact ⟨_, rfl⟩

/-- If both passes over sections succeed, they do so in another order. Whether they succeed is a
matter of single lines and keys, and not of where these are. -/
theorem bothPasses_of_perm (hdump : Comprises dump sections) (hdump' : Comprises dump' sections')
    (hperm : sections.Perm sections') (hpasses : bothPasses settings dump = .ok p) :
    ∃ p', bothPasses settings dump' = .ok p' := by
  obtain ⟨hfirst, hraw, hcounts, -⟩ := passes_of_bothPasses hpasses
  -- The first pass is a matter of the single lines and of the single sections.
  obtain ⟨hread, haccepts⟩ := (resolve_sections_iff hdump).1 ⟨_, hfirst⟩
  obtain ⟨first', hfirst'⟩ := (resolve_sections_iff hdump').2
    ⟨hdump.readable hdump' hperm hread, fun s hs => haccepts s (hperm.mem_iff.2 hs)⟩
  -- The second one is a matter of the single keys.
  obtain ⟨items, keys, hitems, hresolved⟩ := resolve_eq_ok hfirst
  obtain ⟨items', keys', hitems', hresolved'⟩ := resolve_eq_ok hfirst'
  rw [hraw] at hcounts
  have hfree := (hresolved.refine_iff (hresolved.plain hitems)).1 ⟨_, hcounts⟩
  have hkeys := (hresolved.sectionsResolved hitems hdump hfirst).keys_perm
    (hresolved'.sectionsResolved hitems' hdump' hfirst') hperm
  obtain ⟨counts', hcounts'⟩ := (hresolved'.refine_iff (hresolved'.plain hitems')).2
    fun k hk => hfree k (hkeys.mem_iff.2 hk)
  exact bothPasses_of_passes hfirst' hcounts'

/-- If both passes over a dump that comprises sections of distinct keys succeed, they do so for the
sections in any other order, with the same result but for the order of the lines and the blocks,
which is that of the sections. One choice of `line` and `block` serves for all orders. -/
theorem permuted_sections_pass_alike (hdump : Comprises dump sections)
    (hids : (sections.map Section.keyId).Nodup) (hpasses : bothPasses settings dump = .ok p) :
    ∃ line block, FinalSections p sections line block ∧
      ∀ sections', sections.Perm sections' → Comprises (ofSections sections') sections' ∧
        ∀ dump', Comprises dump' sections' → ∃ p', bothPasses settings dump' = .ok p' ∧
          PassedAlike p p' ∧ FinalSections p' sections' line block := by
  obtain ⟨items, keys, blocks, hitems, h⟩ := bothPasses_eq_ok hpasses
  have hsections := h.resolved.sectionsResolved hitems hdump (passes_of_bothPasses hpasses).1
  have hnodup : (keys.map CommittedKey.keyId).Nodup := by rwa [hsections.keyIds]
  refine ⟨_, _, h.finalSections hsections hnodup, fun sections' hperm =>
    ⟨hdump.ofSections_of_perm hperm, fun dump' hdump' => ?_⟩⟩
  obtain ⟨p', hpasses'⟩ := bothPasses_of_perm hdump hdump' hperm hpasses
  obtain ⟨items', keys', blocks', hitems', h'⟩ := bothPasses_eq_ok hpasses'
  have hsections' := h'.resolved.sectionsResolved hitems' hdump' (passes_of_bothPasses hpasses').1
  have hkeys := hsections.keys_perm hsections' hperm
  have hnodup' := (hkeys.map CommittedKey.keyId).nodup hnodup
  have hfirst := hsections.first_eq hsections' hperm
  have hblocks : blocks.Perm blocks' := by
    rw [h.blocks_eq hsections hnodup, h'.blocks_eq hsections' hnodup', hfirst]
    exact hperm.filterMap _
  refine ⟨p', hpasses', ⟨hfirst, ?_, h.counts_eq_of_perm h' hpasses hpasses' hnodup hkeys hblocks
    hfirst⟩, ?_⟩
  · obtain ⟨-, -, hcounts, hfinal⟩ := passes_of_bothPasses hpasses
    obtain ⟨-, -, hcounts', hfinal'⟩ := passes_of_bothPasses hpasses'
    rw [hfinal, hfinal', (refine_policies hcounts).1, (refine_policies hcounts').1, hfirst]
  · have hfinal := h'.finalSections hsections' hnodup'
    -- A line is promoted by the set of the blocks, so their order is of no account for it.
    have hline : Section.finalLine settings blocks' = Section.finalLine settings blocks := by
      funext s
      rw [Section.finalLine, Section.finalLine, StatusLine.promotedBy_of_perm hblocks]
    rwa [hline, hfirst] at hfinal

/-- A key that is certified by a later one. A line without a record is among its lines. -/
def earlierSection : Section where
  head := Utf8.encode "pub::1024:17:AA:2001-01-01::4:".toList
  body := ["uid:-::::::::Alice:", "sig:AA:2001-01-01::13::4:17:2", "sub:",
    "sig:BB:2001-01-02::13::4:17:2", "spk:26:0:1:p"].map fun line => Utf8.encode line.toList
  record := ⟨"", 1024, .dsa, .ofText "AA", "2001-01-01", "", 4⟩
  readHead := by decide +kernel
  noKey := by decide +kernel

/-- The later key, which is certified by the earlier one. Its own certification of the other key
makes both of them interesting. -/
def laterSection : Section where
  head := Utf8.encode "pub::1024:17:BB:2001-01-01::4:".toList
  body := ["uid:-::::::::Bob:", "sig:BB:2001-01-01::13::4:17:2",
    "sig:AA:2001-01-02::13::4:17:2"].map fun line => Utf8.encode line.toList
  record := ⟨"", 1024, .dsa, .ofText "BB", "2001-01-01", "", 4⟩
  readHead := by decide +kernel
  noKey := by decide +kernel

/-- Both certifications count in either order, and so does the policy. One of the certifications is
by a key that comes later in the dump. -/
theorem permuted_sections_pass_alike_swapped :
    ∃ p line block, bothPasses {} (ofSections [earlierSection, laterSection]) = .ok p ∧
      p.counts.certified = 2 ∧ p.counts.policyUris = 1 ∧
      FinalSections p [earlierSection, laterSection] line block ∧
      ∃ p', bothPasses {} (ofSections [laterSection, earlierSection]) = .ok p' ∧
        PassedAlike p p' ∧ FinalSections p' [laterSection, earlierSection] line block := by
  have hcounts : ((bothPasses {} (ofSections [earlierSection, laterSection])).toOption.map fun p =>
      (p.counts.certified, p.counts.policyUris)) = some (2, 1) := by decide +kernel
  obtain ⟨p, hp, hcounts⟩ := exists_resolution _ hcounts
  obtain ⟨hcertified, hpolicies⟩ := Prod.mk.inj hcounts
  have hdump : Comprises (ofSections [earlierSection, laterSection])
      [earlierSection, laterSection] := .ofSections (by decide +kernel)
  obtain ⟨line, block, hfinal, hperm⟩ := permuted_sections_pass_alike hdump (by decide) hp
  -- The two sections in the other order.
  obtain ⟨hdump', hpasses⟩ := hperm [laterSection, earlierSection] (.swap _ _ _)
  obtain ⟨p', hp', halike, hfinal'⟩ := hpasses _ hdump'
  exact ⟨p, line, block, hp, hcertified, hpolicies, hfinal, p', hp', halike, hfinal'⟩

end WebOfTrust
