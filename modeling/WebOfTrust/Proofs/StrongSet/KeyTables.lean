import WebOfTrust.Proofs.StrongSet.KeyStatistics
import WebOfTrust.Proofs.StrongSet.Tally

/-!
# `WebOfTrust.Proofs.StrongSet.KeyTables`: key tables lose nothing

The status of a key is counted in the totals, and where the key is valid, certified, reachable or
strong it is counted in four tables besides. Only the first line of a key is counted, so what has
been counted is a list of lines with different key ids (`KeyTally.Counts`): a line of a new key
extends it, and any other leaves it. Lines that are read have a settled status, which is one of
those that the totals tell apart.

- `KeyTally.Counts.record`: what has been counted behind a line;
- `KeyTally.key_tables_conserve`: the tables behind any lines, and in any order of the first ones;
- `Analyzer.loadStatus_conserved`: those of an analysis.
-/

set_option autoImplicit false

namespace WebOfTrust

open StatusTable

/-! ### Counts -/

namespace KeyCounts

variable (reachable strong : KeyId → Bool)

/-- The counts of the keys of lines. Which keys are reachable and which are strong is given by two
functions, as it does not depend on the lines. Such counts stand in every bucket of a table. -/
def ofLines (ls : List StatusLine) : KeyCounts where
  valid := ls.countP fun l => l.status.isValid
  certified := ls.countP fun l => l.status = .certified
  reachable := ls.countP fun l => reachable l.keyId
  strong := ls.countP fun l => strong l.keyId

/-- One line more is counted as `KeyTally.increment` does it. -/
theorem ofLines_concat (ls : List StatusLine) (l : StatusLine) :
    ofLines reachable strong (ls ++ [l])
      = KeyTally.increment l.status (reachable l.keyId) (strong l.keyId)
          (ofLines reachable strong ls) := by
  simp only [ofLines, KeyTally.increment, incrementIf, List.countP_append, List.countP_singleton,
    KeyCounts.mk.injEq]
  refine ⟨?_, ?_, ?_, ?_⟩ <;> split <;> rfl

/-- These are numbers of lines with a property, so the order of `ls` does not matter. -/
theorem ofLines_perm {ls ls' : List StatusLine} (h : ls.Perm ls') :
    ofLines reachable strong ls = ofLines reachable strong ls' := by
  simp only [ofLines, h.countP_eq]

end KeyCounts

/-- The totals do not depend on the order of the lines, either. -/
theorem KeyTotals.ofLines_perm {ls ls' : List StatusLine} (h : ls.Perm ls') :
    ofLines ls = ofLines ls' := by
  simp only [ofLines, h.countP_eq, h.length_eq]

/-- A breakdown of keys: it lists the given buckets, and its columns sum to the totals and to the
numbers of reachable and of strong keys. It is `BrokenDown` for keys, with one column more. -/
structure KeyTotals.BrokenDown (totals : KeyTotals) (reachable strong : Nat) (buckets : List Nat)
    (rows : List (BreakdownRow KeyCounts)) : Prop where
  /-- Every bucket has a row. -/
  lists : ListsBuckets buckets rows
  /-- The valid keys are in the rows, each in one of them. -/
  valid : columnSum KeyCounts.valid rows = totals.valid
  /-- So are the certified ones. -/
  certified : columnSum KeyCounts.certified rows = totals.certified
  /-- And those that are reachable, as far as they have lines. -/
  reachable : columnSum KeyCounts.reachable rows = reachable
  /-- And the strong ones. -/
  strong : columnSum KeyCounts.strong rows = strong

/-- The rows of a tally of lines are a breakdown of their totals, if every line falls into one of
the buckets. Each column is a sum by `Counts.columnSum_rows`. -/
theorem KeyTotals.brokenDown_rows {reachable strong : KeyId → Bool} {ls : List StatusLine}
    {t : Tally KeyCounts} {buckets : List Nat} {bucket : StatusLine → Nat}
    (h : t.Counts buckets bucket (.ofLines reachable strong) ls)
    (hbuckets : ∀ l ∈ ls, bucket l ∈ buckets) (label : Nat → String) :
    BrokenDown (ofLines ls) (ls.countP fun l => reachable l.keyId)
      (ls.countP fun l => strong l.keyId) buckets (t.rows label) where
  lists := h.listsBuckets label
  valid := h.columnSum_rows _ label (fun _ => rfl) hbuckets
  certified := h.columnSum_rows _ label (fun _ => rfl) hbuckets
  reachable := h.columnSum_rows _ label (fun _ => rfl) hbuckets
  strong := h.columnSum_rows _ label (fun _ => rfl) hbuckets

/-! ### Lines one by one -/

namespace KeyTally

section Records

variable (reachable strong : KeyId → Bool) (currentYear : Nat)

/-- The tally of lines, where two properties of a key are known. The functions `reachable` and
`strong` stand for the two sets. -/
def ofLines (ls : List StatusLine) : KeyTally :=
  ls.foldl (fun t l => (t.record l (reachable l.keyId) (strong l.keyId)).1) { currentYear }

/-- The lines that have been counted are `ls`, in the totals and in each of the tables. This is the
invariant of `KeyTally.record`. -/
structure Counts (ls : List StatusLine) (t : KeyTally) : Prop where
  /-- The last bucket of the years does not change. -/
  year : t.currentYear = currentYear
  /-- Lines of these keys will be passed over. -/
  seen : ∀ k, k ∈ t.seen ↔ k ∈ ls.map StatusLine.keyId
  /-- The totals count all of the lines. -/
  totals : t.totals = .ofLines ls
  /-- Each table counts them by its own bucket. -/
  byVersion : Tally.Counts versionBuckets (fun l => (versionBucket l.version).toNat)
    (.ofLines reachable strong) ls t.byVersion
  byAlgorithm : Tally.Counts (PublicKeyAlgorithm.buckets.map UInt8.toNat)
    (fun l => l.algorithm.bucket.toNat) (.ofLines reachable strong) ls t.byAlgorithm
  byLength : Tally.Counts keyLengthBuckets (fun l => keyLengthBucket l.bits.toNat)
    (.ofLines reachable strong) ls t.byLength
  byYear : Tally.Counts (yearBuckets currentYear) (fun l => yearBucket l.created currentYear)
    (.ofLines reachable strong) ls t.byYear

end Records

variable {reachable strong : KeyId → Bool} {currentYear : Nat} {ls ls' : List StatusLine}
  {t t' : KeyTally}

/-- Before any line all preset buckets are empty, and so `Counts` holds of no lines. -/
theorem counts_empty : Counts reachable strong currentYear [] { currentYear } where
  year := rfl
  seen k := by simp
  totals := rfl
  byVersion := Tally.counts_preset rfl
  byAlgorithm := Tally.counts_preset rfl
  byLength := Tally.counts_preset rfl
  byYear := by
    -- The buckets depend on the year, which is a field of its own.
    dsimp only
    exact Tally.counts_preset rfl

/-- A line is counted if it is the first one of its key. So the invariant is stated for
`firstLines`, before and after. -/
theorem Counts.record (h : Counts reachable strong currentYear (firstLines ls) t) {l : StatusLine}
    (hl : l.Writable) : Counts reachable strong currentYear (firstLines (ls ++ [l]))
      (t.record l (reachable l.keyId) (strong l.keyId)).1 := by
  have hseen : t.seen.contains l.keyId = true ↔ l.keyId ∈ ls.map StatusLine.keyId :=
    (h.seen l.keyId).trans mem_keyIds_firstLines
  rw [firstLines_concat, KeyTally.record]
  -- A key that was seen is passed over, by the tally and by `firstLines`.
  by_cases hold : l.keyId ∈ ls.map StatusLine.keyId
  · rwa [if_pos hold, if_pos (hseen.2 hold)]
  rw [if_neg hold, if_neg (mt hseen.1 hold)]
  have hconcat := fun ls => KeyCounts.ofLines_concat reachable strong ls l
  exact {
    year := h.year
    seen k := by
      rw [KeySet.mem_add, h.seen, List.map_append, List.mem_append, or_comm]
      simp
    totals := by rw [KeyTotals.ofLines_concat, ← h.totals]
    byVersion := h.byVersion.bump (versionBucket_mem l.version) hconcat
    byAlgorithm := h.byAlgorithm.bump (PublicKeyAlgorithm.bucket_mem hl.algorithm) hconcat
    byLength := h.byLength.bump (keyLengthBucket_mem l.bits.toNat) hconcat
    byYear := by
      rw [h.year]
      exact h.byYear.bump (yearBucket_mem l.created currentYear) hconcat }

/-- A tally of lines has counted `firstLines` of them. The induction is on the lines from behind,
with `Counts.record` as its step. -/
theorem counts_ofLines (hls : ∀ l ∈ ls, l.Writable) :
    Counts reachable strong currentYear (firstLines ls)
      (ofLines reachable strong currentYear ls) := by
  induction ls using List.reverseRecOn with
  | nil => exact counts_empty
  | append_singleton ls l ih =>
    rw [ofLines, List.foldl_append]
    exact (ih fun m hm => hls m (List.mem_append_left _ hm)).record
      (hls l (List.mem_append_right _ (List.mem_singleton_self l)))

/-- Whatever the order of the lines is that have been counted, there is one tally of them. Tables
are equal where they find the same. `Table.ext` is behind that. -/
theorem Counts.eq_of_perm (h : Counts reachable strong currentYear ls t)
    (h' : Counts reachable strong currentYear ls' t') (hperm : ls.Perm ls') : t = t' := by
  have hseen : t.seen = t'.seen := KeySet.ext_mem fun k => by
    rw [h.seen, h'.seen, (hperm.map _).mem_iff]
  have htotals : t.totals = t'.totals := by
    rw [h.totals, h'.totals, KeyTotals.ofLines_perm hperm]
  have hversion := h.byVersion.eq_of_perm h'.byVersion hperm (KeyCounts.ofLines_perm _ _)
  have halgorithm := h.byAlgorithm.eq_of_perm h'.byAlgorithm hperm (KeyCounts.ofLines_perm _ _)
  have hlength := h.byLength.eq_of_perm h'.byLength hperm (KeyCounts.ofLines_perm _ _)
  have hyear := h.byYear.eq_of_perm h'.byYear hperm (KeyCounts.ofLines_perm _ _)
  have hcurrent := h.year.trans h'.year.symm
  -- Two tallies are equal if their fields are, and each field has been compared.
  show KeyTally.mk t.currentYear t.seen t.totals t.byVersion t.byAlgorithm t.byLength t.byYear
    = KeyTally.mk t'.currentYear t'.seen t'.totals t'.byVersion t'.byAlgorithm t'.byLength t'.byYear
  rw [hcurrent, hseen, htotals, hversion, halgorithm, hlength, hyear]

end KeyTally

/-! ### Statistics -/

namespace KeyTotals

/-- Every settled status is counted as one of four. `Writable` asks for settled statuses, which
lines that are read have. -/
theorem keys_ofLines {ls : List StatusLine} (hls : ∀ l ∈ ls, l.Writable) :
    (ofLines ls).keys = (ofLines ls).expired + (ofLines ls).revoked + (ofLines ls).invalid
      + (ofLines ls).valid := by
  induction ls using List.reverseRecOn with
  | nil => rfl
  | append_singleton ls l ih =>
    have hrest := ih fun m hm => hls m (List.mem_append_left _ hm)
    have hsettled := (hls l (List.mem_append_right _ (List.mem_singleton_self l))).settled
    rw [ofLines_concat]
    -- One case per status; a line of a table never has the one before validation.
    cases hstatus : l.status with
    | unvalidated => exact absurd hstatus hsettled
    | _ => simp only [count]; omega

/-- A key is revoked by its owner or by a designated revoker, and not by both, as it has one
`KeyStatus`. -/
theorem revoked_ofLines (ls : List StatusLine) : (ofLines ls).revoked
    = (ofLines ls).revokedByOwner + (ofLines ls).revokedByDesignatedRevoker := by
  induction ls using List.reverseRecOn with
  | nil => rfl
  | append_singleton ls l ih =>
    rw [ofLines_concat]
    cases l.status <;> simp only [count] <;> omega

/-- Certified keys are valid ones: `certified` is one of the two valid statuses. -/
theorem certified_le_valid_ofLines (ls : List StatusLine) :
    (ofLines ls).certified ≤ (ofLines ls).valid := by
  refine List.countP_mono_left fun l _ hl => ?_
  rw [of_decide_eq_true hl]
  rfl

end KeyTotals

/-- The statistics of keys of which some are reachable and some are strong: the totals tell the keys
apart by their status, and four tables break them down. The sets are `Finset`s of ids here, so every
key is counted once. -/
structure KeyStatistics.Conserved (currentYear : Nat) (keys reachable strong : Finset KeyId)
    (s : KeyStatistics) : Prop where
  /-- Each key is counted once. -/
  keys : s.totals.keys = keys.card
  /-- It is counted under one status. -/
  settled : s.totals.keys
    = s.totals.expired + s.totals.revoked + s.totals.invalid + s.totals.valid
  /-- There are two ways to be revoked. -/
  revoked : s.totals.revoked = s.totals.revokedByOwner + s.totals.revokedByDesignatedRevoker
  /-- A certified key counts as valid as well. -/
  certified : s.totals.certified ≤ s.totals.valid
  /-- By the version of the key. -/
  byVersion : s.totals.BrokenDown reachable.card strong.card versionBuckets s.byVersion
  /-- By its algorithm, the unknown ones in a bucket of their own. -/
  byAlgorithm : s.totals.BrokenDown reachable.card strong.card
    (PublicKeyAlgorithm.buckets.map UInt8.toNat) s.byAlgorithm
  /-- By its length in bits. -/
  byLength : s.totals.BrokenDown reachable.card strong.card keyLengthBuckets s.byLength
  /-- By the year of its creation, with buckets for dates before the first year and behind the
  current one. -/
  byYear : s.totals.BrokenDown reachable.card strong.card (yearBuckets currentYear) s.byYear

namespace KeyTally

variable {reachable strong : KeyId → Bool} {currentYear : Nat} {ls : List StatusLine} {t : KeyTally}

/-- What a table breaks down are the keys of the lines. The sizes of the sets, which stand in the
totals as well, are no part of that. They are parameters for that reason. -/
theorem Counts.brokenDown (h : Counts reachable strong currentYear (firstLines ls) t)
    (reachableSize strongSize : Nat) {table : Tally KeyCounts} {buckets : List Nat}
    {bucket : StatusLine → Nat}
    (htable : table.Counts buckets bucket (.ofLines reachable strong) (firstLines ls))
    (hbuckets : ∀ l ∈ firstLines ls, bucket l ∈ buckets) (label : Nat → String) :
    (t.finish reachableSize strongSize).totals.BrokenDown
      ((ls.map StatusLine.keyId).toFinset.filter fun k => reachable k).card
      ((ls.map StatusLine.keyId).toFinset.filter fun k => strong k).card
      buckets (table.rows label) := by
  obtain ⟨hlists, hvalid, hcertified, hreachable, hstrong⟩ :=
    KeyTotals.brokenDown_rows htable hbuckets label
  rw [countP_firstLines] at hreachable hstrong
  rw [← h.totals] at hvalid hcertified
  exact ⟨hlists, hvalid, hcertified, hreachable, hstrong⟩

/-- A tally that has counted the first lines gives statistics that are conserved. Each of the four
tables goes by `Counts.brokenDown`. -/
theorem Counts.conserved (h : Counts reachable strong currentYear (firstLines ls) t)
    (hls : ∀ l ∈ ls, l.Writable) (reachableSize strongSize : Nat) :
    let keys := (ls.map StatusLine.keyId).toFinset
    (t.finish reachableSize strongSize).Conserved currentYear keys
      (keys.filter fun k => reachable k) (keys.filter fun k => strong k) := by
  -- Only lines that are well-formed fall into the buckets.
  have hfirst : ∀ l ∈ firstLines ls, l.Writable := fun l hl =>
    hls l ((firstLines_sublist ls).subset hl)
  have htotals := h.totals
  refine ⟨?_, ?_, ?_, ?_, ?_, ?_, ?_, ?_⟩
  · show t.totals.keys = _
    rw [htotals, ← length_firstLines]
    rfl
  · show t.totals.keys = t.totals.expired + t.totals.revoked + t.totals.invalid + t.totals.valid
    rw [htotals]
    exact KeyTotals.keys_ofLines hfirst
  · show t.totals.revoked = t.totals.revokedByOwner + t.totals.revokedByDesignatedRevoker
    rw [htotals]
    exact KeyTotals.revoked_ofLines _
  · show t.totals.certified ≤ t.totals.valid
    rw [htotals]
    exact KeyTotals.certified_le_valid_ofLines _
  · exact h.brokenDown _ _ h.byVersion (fun l _ => versionBucket_mem l.version) _
  · exact h.brokenDown _ _ h.byAlgorithm
      (fun l hl => PublicKeyAlgorithm.bucket_mem (hfirst l hl).algorithm) _
  · exact h.brokenDown _ _ h.byLength (fun l _ => keyLengthBucket_mem l.bits.toNat) _
  · exact h.brokenDown _ _ h.byYear (fun l _ => yearBucket_mem l.created currentYear) _

/-- The tables of keys conserve the counts of their different ids, whatever the year is and
whichever keys are reachable and strong. The first lines of the keys give the same tally, in any
order. The second part says so of any permutation of `firstLines`. -/
theorem key_tables_conserve (reachable strong : KeyId → Bool) (currentYear : Nat)
    {ls : List StatusLine} (hls : ∀ l ∈ ls, ∃ text, StatusLine.parse text = .ok l) :
    (∀ reachableSize strongSize,
      let keys := (ls.map StatusLine.keyId).toFinset
      ((ofLines reachable strong currentYear ls).finish reachableSize strongSize).Conserved
        currentYear keys (keys.filter fun k => reachable k) (keys.filter fun k => strong k)) ∧
    ∀ ls', ls'.Perm (firstLines ls) →
      ofLines reachable strong currentYear ls' = ofLines reachable strong currentYear ls := by
  have hwritable : ∀ l ∈ ls, l.Writable := fun l hl =>
    have ⟨_, hparse⟩ := hls l hl
    (StatusLine.writable_of_parse hparse).1
  have hcounts : Counts reachable strong currentYear (firstLines ls)
      (ofLines reachable strong currentYear ls) := counts_ofLines hwritable
  refine ⟨hcounts.conserved hwritable, fun ls' hperm => ?_⟩
  -- All of the lines in `ls'` are the first ones of their keys.
  have hnodup : (ls'.map StatusLine.keyId).Nodup :=
    (hperm.map _).nodup_iff.2 (nodup_keyIds_firstLines ls)
  have hcounts' : Counts reachable strong currentYear (firstLines ls')
      (ofLines reachable strong currentYear ls') :=
    counts_ofLines fun l hl => hwritable l ((firstLines_sublist ls).subset (hperm.mem_iff.1 hl))
  rw [firstLines_of_nodup hnodup] at hcounts'
  exact hcounts'.eq_of_perm hcounts hperm

/-- Lines of three keys, one of which has two: it is revoked in the first one. The date of `BB` lies
in the future, and its algorithm is a private one. -/
def threeKeyLines : List StatusLine :=
  let texts := ["Ro;AA;17;1024;1999-05-05;;4;0", "VC;BB;101;8192;2998-01-01;;3;2",
    "V;AA;17;1024;1999-05-05;;4;1", "I;CC;1;768;;;9;0"]
  texts.filterMap fun text => (StatusLine.parse text).toOption

/-- Of the four lines in `threeKeyLines` three are counted, and those alone give the same tally from
behind. -/
theorem key_tables_conserve_threeKeys :
    let tally := ofLines (fun _ => true) (· = .ofText "BB") 2020
    let keys := (threeKeyLines.map StatusLine.keyId).toFinset
    threeKeyLines.length = 4 ∧
    (tally threeKeyLines).totals
      = { keys := 3, revoked := 1, revokedByOwner := 1, invalid := 1, valid := 1, certified := 1 } ∧
    ((tally threeKeyLines).finish 3 1).Conserved 2020 keys (keys.filter fun _ => true)
      (keys.filter fun k => k = .ofText "BB") ∧
    tally (firstLines threeKeyLines).reverse = tally threeKeyLines := by
  -- The lines were read from texts, so they are lines that a table can have.
  have hparsed : ∀ l ∈ threeKeyLines, ∃ text, StatusLine.parse text = .ok l := by
    intro l hl
    obtain ⟨text, -, hparse⟩ := List.mem_filterMap.1 hl
    refine ⟨text, ?_⟩
    cases hresult : StatusLine.parse text with
    | error e => rw [hresult] at hparse; cases hparse
    | ok m => rw [hresult] at hparse; cases hparse; rfl
  obtain ⟨hconserved, horder⟩ :=
    key_tables_conserve (fun _ => true) (· = .ofText "BB") 2020 hparsed
  refine ⟨by decide +kernel, by decide +kernel, ?_, horder _ (List.reverse_perm _)⟩
  simpa only [decide_eq_true_eq] using hconserved 3 1

end KeyTally

/-! ### Tables that are loaded -/

namespace Analyzer

/-- An analysis knows of a key whether it is reachable and whether it is strong. With these two
functions its loop is a fold of `KeyTally.record`. -/
theorem countLines_eq (a : Analyzer) (t : KeyTally) (ls : List StatusLine) :
    a.countLines t (ls.map .ok) = .ok (ls.foldl (fun t l =>
      (t.record l (a.reachable.contains l.keyId) (a.graph.contains l.keyId)).1) t) := by
  induction ls generalizing t with
  | nil => rfl
  | cons l ls ih => exact ih _

/-- The statistics of a table that is read without error. The sets are those of the analysis `a`
when the table is loaded. -/
theorem loadStatus_conserved (a : Analyzer) {table : Source} {ls : List StatusLine}
    (hls : StatusTable.lines table = ls.map .ok) :
    ∃ statistics, a.loadStatus table = .ok { a with keys := some statistics } ∧
      let keys := (ls.map StatusLine.keyId).toFinset
      statistics.Conserved a.currentYear keys (keys.filter fun k => a.reachable.contains k)
        (keys.filter fun k => a.graph.contains k) := by
  have hwritable : ∀ l ∈ ls, l.Writable := fun l hl => (StatusTable.writable_of_lines hls l hl).1
  refine ⟨_, ?_, (KeyTally.counts_ofLines hwritable).conserved hwritable a.reachable.size
    a.graph.size⟩
  rw [loadStatus, hls, countLines_eq]
  rfl

end Analyzer

end WebOfTrust
