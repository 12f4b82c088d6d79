import Mathlib.Data.Finset.Card
import WebOfTrust.Proofs.StatusTable
import WebOfTrust.Proofs.Table
import WebOfTrust.StrongSet.Analyzer

/-!
# `WebOfTrust.Proofs.StrongSet.KeyStatistics`: of several lines of a key the first one counts

A key-status table may have several lines of one key. The key statistics go through the table once
and pass over the lines of keys that they have counted. So what they count are the first lines, each
under its own status, whatever the later lines of its key say.

- `StatusTable.filter_firstLines`, `StatusTable.length_firstLines`: the lines that are the first
  ones of their keys;
- `StatusTable.firstLines_concat`, `StatusTable.firstLines_of_nodup`: line by line;
- `Analyzer.countLines_totals`: lines one by one;
- `Analyzer.loadStatus_totals`: a table that is read without error.
-/

set_option autoImplicit false

namespace WebOfTrust

/-! ### First lines -/

namespace StatusTable

variable {ls : List StatusLine} {l : StatusLine}

/-- The first line of a key, if the key has any: `List.find?` by id. -/
def first? (ls : List StatusLine) (id : KeyId) : Option StatusLine :=
  ls.find? fun l => l.keyId = id

/-- The lines that are the first ones of their keys, in their order. `KeyTally` counts these and
passes over the others. -/
def firstLines : List StatusLine → List StatusLine
  | [] => []
  | l :: ls => l :: (firstLines ls).filter fun m => m.keyId ≠ l.keyId

/-- The head is the first line of its key, and does not matter for other keys. It is how
`List.find?` goes through the list. -/
theorem first?_cons (m : StatusLine) (ls : List StatusLine) (id : KeyId) :
    first? (m :: ls) id = if m.keyId = id then some m else first? ls id := by
  rw [first?, List.find?_cons]
  by_cases hm : m.keyId = id <;> simp [hm, first?]

/-- Of the lines of a key, the first one is among `firstLines` and no other is. -/
theorem filter_firstLines (ls : List StatusLine) (id : KeyId) :
    (firstLines ls).filter (fun l => l.keyId = id) = (first? ls id).toList := by
  induction ls with
  | nil => rfl
  | cons m ls ih =>
    rw [firstLines, List.filter_cons, List.filter_filter, first?_cons]
    by_cases hm : m.keyId = id
    · -- All other lines of the key have been taken out.
      have hnone : (firstLines ls).filter (fun l => l.keyId = id && l.keyId ≠ m.keyId) = [] :=
        List.filter_eq_nil_iff.2 fun l _ => by simp [hm]
      rw [hnone, if_pos (decide_eq_true hm), if_pos hm, Option.toList_some]
    · have hrest : (firstLines ls).filter (fun l => l.keyId = id && l.keyId ≠ m.keyId)
          = (firstLines ls).filter fun l => l.keyId = id :=
        List.filter_congr fun l _ => by
          by_cases hl : l.keyId = id
          · simp [hl, Ne.symm hm]
          · simp [hl]
      rw [hrest, if_neg (by simpa using hm), if_neg hm, ih]

/-- Every key of the table has a first line, and `firstLines` are of no other keys. -/
theorem mem_keyIds_firstLines {ls : List StatusLine} {id : KeyId} :
    id ∈ (firstLines ls).map StatusLine.keyId ↔ id ∈ ls.map StatusLine.keyId := by
  induction ls with
  | nil => rfl
  | cons m ls ih =>
    rw [firstLines, List.map_cons, List.map_cons, List.mem_cons, List.mem_cons, ← ih]
    by_cases hm : id = m.keyId
    · simp [hm]
    · simp only [hm, false_or, List.mem_map, List.mem_filter, decide_eq_true_eq]
      exact exists_congr fun l => and_congr_left fun hl => and_iff_left (hl ▸ hm)

/-- No key has two lines among `firstLines`. -/
theorem nodup_keyIds_firstLines (ls : List StatusLine) :
    ((firstLines ls).map StatusLine.keyId).Nodup := by
  induction ls with
  | nil => exact List.nodup_nil
  | cons m ls ih =>
    rw [firstLines, List.map_cons, List.nodup_cons]
    refine ⟨fun hmem => ?_, ih.sublist (List.filter_sublist.map _)⟩
    obtain ⟨l, hl, hid⟩ := List.mem_map.1 hmem
    simp [hid] at hl

/-- There are as many lines in `firstLines` as there are different keys, by the two lemmas above. -/
theorem length_firstLines (ls : List StatusLine) :
    (firstLines ls).length = (ls.map StatusLine.keyId).toFinset.card := by
  rw [← List.length_map StatusLine.keyId,
    ← List.toFinset_card_of_nodup (nodup_keyIds_firstLines ls)]
  congr 1
  ext id
  rw [List.mem_toFinset, List.mem_toFinset, mem_keyIds_firstLines]

/-- A key with a line has a first one. It need not be the line that was given. -/
theorem exists_first? (hl : l ∈ ls) : ∃ m, first? ls l.keyId = some m :=
  Option.isSome_iff_exists.1 (List.find?_isSome.2 ⟨l, hl, decide_eq_true rfl⟩)

/-- What `first?` finds is a line of the table, and one of that key. -/
theorem mem_of_first? {id : KeyId} (h : first? ls id = some l) : l ∈ ls ∧ l.keyId = id :=
  ⟨List.mem_of_find?_eq_some h, by simpa using List.find?_some h⟩

/-- In a table of different keys every line is the first one of its key. The induction is on the
lines. -/
theorem first?_of_nodup (hnodup : (ls.map StatusLine.keyId).Nodup) (hl : l ∈ ls) :
    first? ls l.keyId = some l := by
  induction ls with
  | nil => cases hl
  | cons m ls ih =>
    obtain ⟨hm, hrest⟩ := List.nodup_cons.1 hnodup
    rw [first?_cons]
    rcases List.mem_cons.1 hl with rfl | hl
    · exact if_pos rfl
    · -- The line is not the head, so its key is not that of the head either.
      have hne : m.keyId ≠ l.keyId := fun heq => hm (heq ▸ List.mem_map_of_mem hl)
      rw [if_neg hne]
      exact ih hrest hl

/-- One line more at the end is a first one if its key is new. The tallies count lines in this
order. `firstLines` itself is defined from the front. -/
theorem firstLines_concat (ls : List StatusLine) (l : StatusLine) :
    firstLines (ls ++ [l])
      = if l.keyId ∈ ls.map StatusLine.keyId then firstLines ls else firstLines ls ++ [l] := by
  induction ls with
  | nil => rfl
  | cons m ls ih =>
    simp only [List.cons_append, firstLines, ih, List.map_cons, List.mem_cons]
    by_cases hm : l.keyId = m.keyId
    · -- The line is taken out behind the first one of its key.
      split <;> simp [hm]
    · split <;> simp_all

/-- In a table of different keys no line is passed over, so `firstLines` are all lines. -/
theorem firstLines_of_nodup {ls : List StatusLine} (hnodup : (ls.map StatusLine.keyId).Nodup) :
    firstLines ls = ls := by
  induction ls with
  | nil => rfl
  | cons m ls ih =>
    obtain ⟨hm, hrest⟩ := List.nodup_cons.1 hnodup
    rw [firstLines, ih hrest, List.filter_eq_self.2 fun l hl => ?_]
    have hne : l.keyId ≠ m.keyId := fun heq => hm (heq ▸ List.mem_map_of_mem hl)
    simpa using hne

/-- First lines come in the order of the table, as a `List.Sublist` of its lines. -/
theorem firstLines_sublist (ls : List StatusLine) : (firstLines ls).Sublist ls := by
  induction ls with
  | nil => exact List.Sublist.refl []
  | cons m ls ih => exact (List.filter_sublist.trans ih).cons_cons m

/-- The first lines of keys with property `p` are as many as the different keys with it. Each key
has one of them. -/
theorem countP_firstLines (ls : List StatusLine) (p : KeyId → Bool) :
    (firstLines ls).countP (fun l => p l.keyId)
      = ((ls.map StatusLine.keyId).toFinset.filter fun k => p k).card := by
  have hids : (ls.map StatusLine.keyId).toFinset.filter (fun k => p k)
      = (((firstLines ls).map StatusLine.keyId).filter p).toFinset := by
    ext k
    simp only [Finset.mem_filter, List.mem_toFinset, List.mem_filter, mem_keyIds_firstLines]
  rw [hids, List.toFinset_card_of_nodup ((nodup_keyIds_firstLines ls).filter p),
    ← List.countP_eq_length_filter, List.countP_map]
  rfl

end StatusTable

open StatusTable

/-! ### Counts -/

namespace KeyTotals

/-- The counts of the keys of lines, each line under its status. The numbers of reachable and of
strong keys are not of lines, and stay at zero. `finish` fills these in from the sets. -/
def ofLines (ls : List StatusLine) : KeyTotals where
  keys := ls.length
  expired := ls.countP fun l => l.status = .expired
  revoked := ls.countP fun l =>
    l.status = .revokedByOwner ∨ l.status = .revokedByDesignatedRevoker
  revokedByOwner := ls.countP fun l => l.status = .revokedByOwner
  revokedByDesignatedRevoker := ls.countP fun l => l.status = .revokedByDesignatedRevoker
  invalid := ls.countP fun l => l.status = .invalid
  valid := ls.countP fun l => l.status.isValid
  certified := ls.countP fun l => l.status = .certified

/-- One line more is counted as `KeyTotals.count` does it. -/
theorem ofLines_concat (ls : List StatusLine) (l : StatusLine) :
    ofLines (ls ++ [l]) = (ofLines ls).count l.status := by
  simp only [ofLines, List.countP_append, List.countP_singleton, List.length_append,
    List.length_singleton]
  cases l.status <;> rfl

/-- Lines that are counted one by one behind others are counted with them. `KeyTotals.count` is the
step for one line. -/
theorem foldl_count (ls ms : List StatusLine) :
    ms.foldl (fun t l => t.count l.status) (ofLines ls) = ofLines (ls ++ ms) := by
  induction ms generalizing ls with
  | nil => rw [List.foldl_nil, List.append_nil]
  | cons m ms ih => rw [List.foldl_cons, ← ofLines_concat, ih, ← List.append_cons]

end KeyTotals

namespace Analyzer

/-- Lines of keys that have been counted are passed over, and of the others the first ones are
counted. The induction is on the lines, for any tally. `seen` holds the keys that have been
counted. -/
theorem countLines_totals (a : Analyzer) (t : KeyTally) (ls : List StatusLine) :
    ∃ t', a.countLines t (ls.map .ok) = .ok t' ∧
      t'.totals = ((firstLines ls).filter fun l => l.keyId ∉ t.seen).foldl
        (fun totals l => totals.count l.status) t.totals := by
  induction ls generalizing t with
  | nil => exact ⟨t, rfl, rfl⟩
  | cons l ls ih =>
    obtain ⟨t', ht', htotals⟩ :=
      ih (t.record l (a.reachable.contains l.keyId) (a.graph.contains l.keyId)).1
    refine ⟨t', ht', htotals.trans ?_⟩
    rw [firstLines, List.filter_cons, List.filter_filter, KeyTally.record]
    by_cases hl : l.keyId ∈ t.seen
    · -- The other lines of this key are passed over as well.
      have hrest : ∀ m : StatusLine, (m.keyId ∉ t.seen ∧ m.keyId ≠ l.keyId) ↔ m.keyId ∉ t.seen :=
        fun m => and_iff_left_of_imp fun hm heq => hm (heq ▸ hl)
      rw [if_pos (show t.seen.contains l.keyId = true from hl)]
      simp only [hl, hrest, not_true_eq_false, decide_false, Bool.false_eq_true, if_false,
        ← Bool.decide_and]
    · have hrest : ∀ m : StatusLine,
          m.keyId ∉ t.seen.add l.keyId ↔ m.keyId ∉ t.seen ∧ m.keyId ≠ l.keyId :=
        fun m => by rw [KeySet.mem_add, not_or, and_comm]
      rw [if_neg (show ¬ t.seen.contains l.keyId = true from hl)]
      simp only [hl, hrest, not_false_eq_true, decide_true, if_true, List.foldl_cons,
        Bool.decide_and]

/-- A table that is read without error gives the counts of its first lines, together with the sizes
of the two sets. `reachable` and `strong` are these sizes. -/
theorem loadStatus_totals (a : Analyzer) {table : Source} {ls : List StatusLine}
    (hls : StatusTable.lines table = ls.map .ok) :
    ∃ statistics, a.loadStatus table = .ok { a with keys := some statistics } ∧
      statistics.totals = { KeyTotals.ofLines (firstLines ls) with
        reachable := a.reachable.size, strong := a.graph.size } := by
  obtain ⟨t, ht, htotals⟩ := a.countLines_totals { currentYear := a.currentYear } ls
  -- At the start no key has been seen, so no first line is left out.
  have hall : (firstLines ls).filter (fun l => l.keyId ∉ (∅ : KeySet KeyId)) = firstLines ls :=
    List.filter_eq_self.2 fun l _ => decide_eq_true (Table.not_mem_empty l.keyId)
  have hstart := KeyTotals.foldl_count [] (firstLines ls)
  refine ⟨a.keyStatistics t, ?_, ?_⟩
  · rw [loadStatus, hls, ht]
    rfl
  · show { t.totals with reachable := a.reachable.size, strong := a.graph.size } = _
    rw [htotals, hall, show ({} : KeyTotals) = KeyTotals.ofLines [] from rfl, hstart]
    rfl

end Analyzer

end WebOfTrust
