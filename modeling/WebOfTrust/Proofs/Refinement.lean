import Mathlib.Data.List.Nodup
import WebOfTrust.Proofs.Artifacts
import WebOfTrust.Proofs.Corpus
import WebOfTrust.Proofs.Table
import WebOfTrust.Refinement

/-!
# `WebOfTrust.Proofs.Refinement`: what the second pass keeps and promotes

The second pass goes through two lists, the blocks and the lines of the raw artifacts. Of the first
one it keeps some blocks, of the second one it promotes some lines. Both are functions of the lists
and of the interesting keys (`keptBlocks`, `StatusLine.promotedBy`); the writers add nothing to them
but the chance to fail.

- `mem_signees_keptBlocks_iff`: the keys of which a block is kept;
- `nodup_signees_keptBlocks`: of each of them, one block is kept;
- `refine_stages`, `refine_eq_ok`: a second pass that succeeds.
-/

set_option autoImplicit false

namespace WebOfTrust

open Text

variable {interesting : KeySet KeyId}

/-! ### Single blocks -/

/-- To drop repetitions drops no member. Each of them is still there at its first place. -/
theorem mem_distinct {l : List Signature} {s : Signature} : s ∈ distinct l ↔ s ∈ l := by
  induction l with
  | nil => rfl
  | cons t l ih =>
    simp only [distinct, List.mem_cons, List.mem_filter, ih]
    by_cases hs : s = t <;> simp [hs]

namespace EdgeBlock

/-- A block counts if its key is interesting and is certified in it by an interesting key. Whether
it is written depends on the blocks before it as well. -/
def Counts (interesting : KeySet KeyId) (b : EdgeBlock) : Prop :=
  b.signee ∈ interesting ∧ ∃ s ∈ b.entries, s.issuer ∈ interesting

/-- What is left of a block are its certifications by interesting keys. `distinct` and `List.filter`
are each described by their members here. -/
theorem mem_entries_restrict {b : EdgeBlock} {s : Signature} :
    s ∈ (b.restrict interesting).entries ↔ s ∈ b.entries ∧ s.issuer ∈ interesting := by
  rw [restrict, mem_distinct, List.mem_filter]
  rfl

/-- Something is left of a block if an interesting key is among its issuers. The pass asks
`List.isEmpty` to decide whether a block is dropped. -/
theorem isEmpty_entries_restrict_iff {b : EdgeBlock} :
    (b.restrict interesting).entries.isEmpty = false ↔
      ∃ s ∈ b.entries, s.issuer ∈ interesting := by
  rw [List.isEmpty_eq_false_iff_exists_mem]
  simp only [mem_entries_restrict]

/-- A restricted block can be written if the block can. Its entries are some of the old ones, by
`mem_entries_restrict`. -/
theorem Writable.restrict {b : EdgeBlock} (h : b.Writable) :
    (b.restrict interesting).Writable :=
  fun s hs => h s (mem_entries_restrict.1 hs).1

end EdgeBlock

/-- The block that is written, if that is the fate. `BlockPass.fate` decides, and proofs look at the
block. -/
def BlockFate.block? : BlockFate → Option EdgeBlock
  | .written b => some b
  | .duplicate | .dropped => none

/-- A block is written if its key has none yet and it counts, and then its restriction is what is
written. The other fates are told apart by the counters only. -/
theorem BlockPass.block?_fate {p : BlockPass} {b b' : EdgeBlock} :
    (p.fate interesting b).block? = some b' ↔
      b.signee ∉ p.trusted ∧ b.Counts interesting ∧ b.restrict interesting = b' := by
  have hmem : ∀ {s : KeySet KeyId} {id : KeyId}, s.contains id = true ↔ id ∈ s := Iff.rfl
  simp only [fate, hmem]
  -- The tests of the second pass, in its order: duplicate, uninteresting, without certifications.
  split
  · next ht => simp [BlockFate.block?, ht]
  next ht =>
  split
  · next hi =>
    cases he : (b.restrict interesting).entries.isEmpty with
    | true =>
      have hnone : ¬ b.Counts interesting := fun hc => by
        have hfalse := EdgeBlock.isEmpty_entries_restrict_iff.2 hc.2
        simp [he] at hfalse
      simp [BlockFate.block?, hnone]
    | false =>
      have hc : b.Counts interesting := ⟨hi, EdgeBlock.isEmpty_entries_restrict_iff.1 he⟩
      simp [BlockFate.block?, ht, hc]
  · next hi =>
    have hnone : ¬ b.Counts interesting := fun hc => hi hc.1
    simp [BlockFate.block?, hnone]

/-- A key is trusted once a block of it is written. A duplicate and a dropped block leave `trusted`
as it is. -/
theorem BlockPass.mem_trusted_count {p : BlockPass} {fate : BlockFate} {id : KeyId} :
    id ∈ (p.count fate).trusted ↔ id ∈ p.trusted ∨ ∃ b ∈ fate.block?, b.signee = id := by
  cases fate with
  | duplicate => simp [count, BlockFate.block?]
  | dropped => simp [count, BlockFate.block?]
  | written b =>
    simp only [count, BlockFate.block?, KeySet.mem_add, Option.mem_def, Option.some.injEq]
    rw [or_comm]
    refine or_congr_right ⟨fun h => ⟨b, rfl, h.symm⟩, ?_⟩
    rintro ⟨b', rfl, h⟩
    exact h.symm

/-- The blocks that are counted are those that are written. `block?` has one element or none, and
its length is what is added. -/
theorem BlockPass.edgeBlocks_count (p : BlockPass) (fate : BlockFate) :
    (p.count fate).counts.edgeBlocks = p.counts.edgeBlocks + fate.block?.toList.length := by
  cases fate <;> rfl

/-- A fate is carried out by writing its block, or nothing. The table is not touched, so the `Gain`
of it is empty. -/
theorem BlockFate.gain_write {out out' : Artifacts} {fate : BlockFate}
    (h : fate.write out = .ok out') :
    out.Gain out' "" (String.join (fate.block?.toList.map EdgeBlock.render)) := by
  cases fate with
  | duplicate => exact Except.ok.inj h ▸ Artifacts.Gain.refl out
  | dropped => exact Except.ok.inj h ▸ Artifacts.Gain.refl out
  | written b => simpa [block?] using Artifacts.gain_writeBlock h

/-! ### Blocks that are kept -/

/-- The blocks that are written. The recursion is that of the pass, without artifacts and without
errors, so lemmas about it are about lists. -/
def keptBlocks (interesting : KeySet KeyId) (p : BlockPass) : List EdgeBlock → List EdgeBlock
  | [] => []
  | b :: bs =>
    (p.fate interesting b).block?.toList ++
      keptBlocks interesting (p.count (p.fate interesting b)) bs

/-- What is kept of a block is the restriction of one that counts. The induction is on
`keptBlocks`. -/
theorem exists_of_mem_keptBlocks {p : BlockPass} {bs : List EdgeBlock} {b' : EdgeBlock}
    (h : b' ∈ keptBlocks interesting p bs) :
    ∃ b ∈ bs, b.signee ∉ p.trusted ∧ b.Counts interesting ∧ b.restrict interesting = b' := by
  induction bs generalizing p with
  | nil => cases h
  | cons b bs ih =>
    rcases List.mem_append.1 h with h | h
    · exact ⟨b, List.mem_cons_self, BlockPass.block?_fate.1 (Option.mem_toList.1 h)⟩
    · obtain ⟨c, hc, ht, hcounts⟩ := ih h
      exact ⟨c, List.mem_cons_of_mem _ hc,
        fun hmem => ht (BlockPass.mem_trusted_count.2 (.inl hmem)), hcounts⟩

/-- A block is kept of each key of which there is one that counts, and has none yet. It need not be
the one that is given on the right side, but the first one. -/
theorem mem_signees_keptBlocks_iff {p : BlockPass} {bs : List EdgeBlock} {id : KeyId} :
    (∃ b ∈ keptBlocks interesting p bs, b.signee = id) ↔
      id ∉ p.trusted ∧ ∃ b ∈ bs, b.signee = id ∧ b.Counts interesting := by
  constructor
  · rintro ⟨b', hb', rfl⟩
    obtain ⟨b, hb, ht, hcounts, rfl⟩ := exists_of_mem_keptBlocks hb'
    exact ⟨ht, b, hb, rfl, hcounts⟩
  · rintro ⟨ht, c, hc, rfl, hcounts⟩
    -- The block that is kept need not be `c`: the first one of the key that counts is.
    induction bs generalizing p with
    | nil => cases hc
    | cons b bs ih =>
      by_cases hkept : ∃ b' ∈ (p.fate interesting b).block?, b'.signee = c.signee
      · obtain ⟨b', hb', hsignee⟩ := hkept
        exact ⟨b', List.mem_append_left _ (Option.mem_toList.2 hb'), hsignee⟩
      · -- The key is still without a block, so the one that counts is behind this one.
        have ht' : c.signee ∉ (p.count (p.fate interesting b)).trusted := fun hmem =>
          (BlockPass.mem_trusted_count.1 hmem).elim ht hkept
        rcases List.mem_cons.1 hc with rfl | hc
        · exact absurd ⟨_, BlockPass.block?_fate.2 ⟨ht, hcounts, rfl⟩, rfl⟩ hkept
        · obtain ⟨b', hb', hsignee⟩ := ih hc ht'
          exact ⟨b', List.mem_append_right _ hb', hsignee⟩

/-- Of each key one block is kept. Readers of the final corpus rely on that. The keys in `p.trusted`
are none of them, which the induction needs to be known. -/
theorem nodup_signees_keptBlocks (p : BlockPass) (bs : List EdgeBlock) :
    ((keptBlocks interesting p bs).map EdgeBlock.signee).Nodup := by
  induction bs generalizing p with
  | nil => simp [keptBlocks]
  | cons b bs ih =>
    rw [keptBlocks]
    cases hb : (p.fate interesting b).block? with
    | none => simpa using ih _
    | some b' =>
      rw [Option.toList_some, List.singleton_append, List.map_cons, List.nodup_cons]
      refine ⟨fun hmem => ?_, ih _⟩
      -- Once a block is written its key is trusted, and no other block of that key is.
      obtain ⟨c', hc', hsignee⟩ := List.mem_map.1 hmem
      obtain ⟨c, -, ht, -, rfl⟩ := exists_of_mem_keptBlocks hc'
      exact ht (BlockPass.mem_trusted_count.2 (.inr ⟨b', hb, hsignee.symm⟩))

/-- Among blocks of different keys, all that count are kept. With two blocks of a key, the second
one might be lost as a duplicate. -/
theorem restrict_mem_keptBlocks {p : BlockPass} {bs : List EdgeBlock} {b : EdgeBlock}
    (hnodup : (bs.map EdgeBlock.signee).Nodup) (hb : b ∈ bs) (ht : b.signee ∉ p.trusted)
    (hcounts : b.Counts interesting) :
    b.restrict interesting ∈ keptBlocks interesting p bs := by
  obtain ⟨b', hb', hsignee⟩ := mem_signees_keptBlocks_iff.2 ⟨ht, b, hb, rfl, hcounts⟩
  obtain ⟨c, hc, -, -, rfl⟩ := exists_of_mem_keptBlocks hb'
  -- The block that is kept of this key is this one, as the key has no other.
  have heq : c = b := List.inj_on_of_nodup_map hnodup hc hb hsignee
  exact heq ▸ hb'

/-- A pass over blocks that succeeds has read them all and written those that are kept. Afterwards
the trusted keys are the heads of these. -/
theorem refineBlocks_eq_ok {p p' : BlockPass} {out : Artifacts}
    {items : List (Except ResolutionError EdgeBlock)}
    (h : (refineBlocks interesting p out items).result = .ok p') :
    ∃ bs, items = bs.map .ok ∧
      out.Gain (refineBlocks interesting p out items).written ""
        (String.join ((keptBlocks interesting p bs).map EdgeBlock.render)) ∧
      (∀ id, id ∈ p'.trusted ↔
        id ∈ p.trusted ∨ ∃ b ∈ keptBlocks interesting p bs, b.signee = id) ∧
      p'.counts.edgeBlocks = p.counts.edgeBlocks + (keptBlocks interesting p bs).length := by
  -- On what the reader gives, for any counts and any artifacts so far.
  induction items generalizing p out with
  | nil =>
    obtain rfl := Except.ok.inj h
    exact ⟨[], rfl, Artifacts.Gain.refl out, by simp [keptBlocks], by simp [keptBlocks]⟩
  | cons item items ih =>
    cases item with
    | error e => cases h
    | ok b =>
      cases hw : (p.fate interesting b).write out with
      | error e => simp [refineBlocks, hw] at h
      | ok out₁ =>
        simp only [refineBlocks, hw] at h ⊢
        obtain ⟨bs, rfl, hgain, htrusted, hblocks⟩ := ih h
        refine ⟨b :: bs, rfl, ?_, fun id => ?_, ?_⟩
        · simpa [keptBlocks] using (BlockFate.gain_write hw).trans hgain
        · show id ∈ p'.trusted ↔
            id ∈ p.trusted ∨ ∃ b' ∈ keptBlocks interesting p (b :: bs), b'.signee = id
          rw [htrusted, BlockPass.mem_trusted_count, or_assoc]
          simp only [keptBlocks, List.mem_append, Option.mem_toList, Option.mem_def,
            or_and_right, exists_or]
        · show p'.counts.edgeBlocks
            = p.counts.edgeBlocks + (keptBlocks interesting p (b :: bs)).length
          rw [hblocks, BlockPass.edgeBlocks_count, keptBlocks, List.length_append,
            Nat.add_assoc]

/-! ### Status lines -/

/-- A line as it is once the blocks are written: promoted, if it is valid and heads one of them. -/
def StatusLine.promotedBy (blocks : List EdgeBlock) (l : StatusLine) : StatusLine :=
  if l.status = .valid ∧ ∃ b ∈ blocks, b.signee = l.keyId then
    { l with status := .certified }
  else l

/-- The program promotes by the transitions of `KeyStatus`, which allow it for valid keys only. The
cases are the statuses of the line. -/
theorem StatusLine.promote_eq_promotedBy {trusted : KeySet KeyId} {blocks : List EdgeBlock}
    (h : ∀ id, id ∈ trusted ↔ ∃ b ∈ blocks, b.signee = id) (l : StatusLine) :
    l.promote trusted = l.promotedBy blocks := by
  have hmem : trusted.contains l.keyId = true ↔ ∃ b ∈ blocks, b.signee = l.keyId := h l.keyId
  rw [promote, promotedBy]
  simp only [← hmem]
  split
  · next ht =>
    split
    · next status hs =>
      -- The first alternative settles a key that has no status yet, which takes another event.
      obtain ⟨rfl, ⟨-, hne⟩ | ⟨hv, -⟩⟩ := KeyStatus.transition_eq_ok_iff.1 hs
      · exact absurd rfl hne
      · rw [if_pos ⟨hv, ht⟩]
        rfl
    · next hs =>
      -- A transition that is refused leaves the line as it is, so the line was not valid.
      rw [if_neg]
      rintro ⟨hv, -⟩
      rw [KeyStatus.transition_eq_ok_iff.2 ⟨rfl, .inr ⟨hv, rfl⟩⟩] at hs
      cases hs
  · next ht => rw [if_neg fun hc => ht hc.2]

/-- A pass over lines that succeeds has read them all, promoted some and written all, and it counts
the lines that it has changed. -/
theorem refineStatus_eq_ok {trusted : KeySet KeyId} {certified n : Nat} {out : Artifacts}
    {items : List (Except ResolutionError StatusLine)}
    (h : (refineStatus trusted certified out items).result = .ok n) :
    ∃ ls : List StatusLine, items = ls.map .ok ∧
      out.Gain (refineStatus trusted certified out items).written
        (unlines ((ls.map (StatusLine.promote trusted)).map StatusLine.render)) "" ∧
      n = certified + ls.countP fun l => l.promote trusted ≠ l := by
  induction items generalizing certified out with
  | nil =>
    obtain rfl := Except.ok.inj h
    exact ⟨[], rfl, Artifacts.Gain.refl out, by simp⟩
  | cons item items ih =>
    cases item with
    | error e => cases h
    | ok l =>
      cases hw : out.writeStatus (l.promote trusted) with
      | error e => simp [refineStatus, hw] at h
      | ok out₁ =>
        simp only [refineStatus, hw] at h ⊢
        obtain ⟨ls, rfl, hgain, rfl⟩ := ih h
        refine ⟨l :: ls, rfl, ?_, ?_⟩
        · simpa using (Artifacts.gain_writeStatus hw).trans hgain
        · -- A line counts as promoted if it has changed.
          by_cases hl : l.promote trusted = l
          · simp [hl]
          · simp [hl, Nat.add_comm 1, Nat.add_assoc]

/-! ### The pass -/

/-- What a second pass over the blocks `bs` and the lines `ls` leaves, if it succeeds and keeps
`blocks`. -/
structure Refined (first : FirstPass) (bs : List EdgeBlock) (ls : List StatusLine)
    (out final : Artifacts) (blocks : List EdgeBlock) (counts : Refinement) : Prop where
  /-- The blocks are those that the pass keeps. -/
  kept : blocks = keptBlocks first.interesting {} bs
  /-- All lines are written, the promoted ones too, and the blocks that are kept. -/
  gain : out.Gain final (unlines ((ls.map (StatusLine.promotedBy blocks)).map StatusLine.render))
    (String.join (blocks.map EdgeBlock.render))
  /-- The blocks are counted. -/
  edgeBlocks : counts.edgeBlocks = blocks.length
  /-- So are the lines that have changed. -/
  certified : counts.certified = ls.countP fun l => l.promotedBy blocks ≠ l

/-- A second pass that succeeds has gone through the blocks, through the lines and through the
policies, one after the other. It takes the pass apart for all that follows. -/
theorem refine_stages {first : FirstPass} {corpus status : Source} {out : Artifacts}
    {counts : Refinement} (h : (refine first corpus status out).result = .ok counts) :
    ∃ p n, (refineCorpus first corpus out).result = .ok p ∧
      (refineStatus p.trusted 0 (refineCorpus first corpus out).written
        (StatusTable.lines status)).result = .ok n ∧
      (refineStatus p.trusted 0 (refineCorpus first corpus out).written
        (StatusTable.lines status)).written.writePolicies
          (first.policyUris.retainIssuers first.interesting)
        = .ok (refine first corpus status out).written ∧
      counts = { p.counts with
        certified := n
        policyUris := (first.policyUris.retainIssuers first.interesting).size } := by
  -- Each stage has succeeded, as the next one would not have been run.
  cases hp : (refineCorpus first corpus out).result with
  | error e => simp [refine, hp] at h
  | ok p =>
    simp only [refine, hp] at h ⊢
    cases hn : (refineStatus p.trusted 0 (refineCorpus first corpus out).written
        (StatusTable.lines status)).result with
    | error e => simp [refineTables, hn] at h
    | ok n =>
      simp only [refineTables, hn] at h ⊢
      split at h
      · cases h
      next out' hpolicies =>
      obtain ⟨-, -, rfl⟩ := except_map_eq_ok.1 h
      exact ⟨p, n, rfl, hn, hpolicies, rfl⟩

/-- A second pass that succeeds has read both of its sources without error, and leaves what
`Refined` says. -/
theorem refine_eq_ok {first : FirstPass} {corpus status : Source} {out : Artifacts}
    {counts : Refinement} (h : (refine first corpus status out).result = .ok counts) :
    ∃ bs ls blocks, Corpus.blocks readingRawCorpus corpus = bs.map .ok ∧
      StatusTable.lines status = ls.map .ok ∧
      Refined first bs ls out (refine first corpus status out).written blocks counts := by
  obtain ⟨p, n, hp, hn, hpolicies, rfl⟩ := refine_stages h
  obtain ⟨bs, hbs, hblocks, htrusted, hcount⟩ := refineBlocks_eq_ok hp
  obtain ⟨ls, hls, hlines, rfl⟩ := refineStatus_eq_ok hn
  -- The pass begins without trusted keys, so at its end the trusted ones are the heads.
  have hpromote : StatusLine.promote p.trusted
      = StatusLine.promotedBy (keptBlocks first.interesting {} bs) :=
    funext <| StatusLine.promote_eq_promotedBy fun id => by
      rw [htrusted]
      exact or_iff_right (Table.not_mem_empty id)
  have hgain := (Artifacts.Gain.trans hblocks hlines).trans
    (Artifacts.gain_writePolicies hpolicies)
  refine ⟨bs, ls, _, hbs, hls, rfl, ?_, ?_, ?_⟩
  · simpa [hpromote] using hgain
  · simpa using hcount
  · simp [hpromote]

end WebOfTrust
