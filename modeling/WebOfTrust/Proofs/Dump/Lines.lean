import Mathlib.Data.List.Basic
import WebOfTrust.Proofs.Dump

/-!
# `WebOfTrust.Proofs.Dump.Lines`: dumps by their lines

The reader numbers the records of a dump, and a line feed may or may not end the last line. Neither
is of any account for what a line says. So a dump that is read without error is its lines without
their line feeds, each of which is read by itself.

- `Source.bareLines`: the lines;
- `Dump.records_eq_ok_iff`: when a dump is read without error;
- `Dump.map_snd_of_records`: the records of such a dump, line by line;
- `bareLines_flatMap`: a dump with given lines.
-/

set_option autoImplicit false

namespace WebOfTrust

open Dump Text

/-! ### Lines without their line feeds -/

/-- A line of bytes without the line feed that ends it. Only the last line of a dump can be without
one. -/
def dropLineFeed (line : List UInt8) : List UInt8 :=
  if line.getLast? = some lineFeed then line.dropLast else line

/-- The lines of a source, whether or not a line feed ends the last one. Two dumps with the same
`bareLines` have the same records. -/
def Source.bareLines (s : Source) : List (List UInt8) := (splitLines s.bytes).map dropLineFeed

/-- A line feed at the end is what is dropped. Nothing else is dropped: a carriage return before it
stays, for `lineBody` to deal with. -/
theorem dropLineFeed_concat (line : List UInt8) : dropLineFeed (line ++ [lineFeed]) = line := by
  simp [dropLineFeed]

/-- Without its own line feed a line has none. Lines that come from a dump can be put into another
one without being split, as `ofSections_of_perm` does. -/
theorem lineFeed_not_mem_of_mem_bareLines {s : Source} {line : List UInt8}
    (h : line ∈ s.bareLines) : lineFeed ∉ line := by
  obtain ⟨whole, hwhole, rfl⟩ := List.mem_map.1 h
  rcases lineFeed_of_mem_splitLines hwhole with hnone | ⟨body, rfl, hbody⟩
  · rw [dropLineFeed, if_neg fun hlast => hnone (List.mem_of_getLast? hlast)]
    exact hnone
  · rwa [dropLineFeed_concat]

/-- There is a source with any lines, as long as no line feed is in them. Dumps are put together
from lines by this, as when sections change their places. -/
theorem bareLines_flatMap {lines : List (List UInt8)} (h : ∀ line ∈ lines, lineFeed ∉ line) :
    Source.bareLines ⟨lines.flatMap (· ++ [lineFeed]), none⟩ = lines := by
  simp only [Source.bareLines]
  induction lines with
  | nil => rfl
  | cons line lines ih =>
    have ih := ih fun l hl => h l (List.mem_cons_of_mem _ hl)
    rw [List.flatMap_cons, List.append_assoc, List.singleton_append,
      splitLines_append_lineFeed (h line List.mem_cons_self), List.map_cons,
      dropLineFeed_concat, ih]

namespace Dump

/-! ### Single lines -/

/-- What a line of bytes is read as. Bytes that are no text are replaced first. It is `parseLine`
behind the decoding, and the place where bytes become records. -/
def readLine (bytes : List UInt8) : Except Malformation (Option Record) :=
  parseLine (String.ofList (Utf8.decodeReplacing bytes))

/-- The record of a line, if it has one. Lines that are refused and lines without a record have
none. -/
def lineRecord? (bytes : List UInt8) : Option Record :=
  match readLine bytes with
  | .ok record => record
  | .error _ => none

/-- What a line is read as depends on its body alone, not on how it ends. `lineBody` takes the
ending off before fields are looked at. -/
theorem parseLine_congr {line line' : String} (h : lineBody line = lineBody line') :
    parseLine line = parseLine line' := by
  rw [lineBody, lineBody] at h
  simp only [parseLine, h]

/-- A line is read the same with its line feed and without it. So `bareLines` lose nothing that a
reader would see. -/
theorem readLine_dropLineFeed (line : List UInt8) :
    readLine (dropLineFeed line) = readLine line := by
  rw [dropLineFeed]
  split
  · next hlast =>
    obtain ⟨body, rfl⟩ := List.getLast?_eq_some_iff.1 hlast
    rw [List.dropLast_concat]
    -- The reader takes the line feed away before it looks at the fields.
    apply parseLine_congr
    rw [lineBody, lineBody, String.toList_ofList, String.toList_ofList,
      decodeReplacing_concat_lineFeed, trimEndWhere_append_of_all _ (by decide)]
  · rfl

/-! ### Whole dumps -/

/-- A dump that yields records and no errors is delivered whole, its lines can be read, and its
records are those of the lines. Numbers of lines are left out, since no error carries one. -/
theorem lines_of_itemsFrom {count : Nat} {ds : List Delivery} {items : List (Nat × Record)}
    (h : itemsFrom count ds = items.map .ok) :
    ∃ lines : List (List UInt8), ds = lines.map .line ∧
      (∀ line ∈ lines, ∃ record, readLine line = .ok record) ∧
      items.map Prod.snd = lines.filterMap lineRecord? := by
  -- One delivered line in front, with or without a record.
  have more : ∀ {bytes : List UInt8} {record : Option Record} {rest : List Delivery}
      {items : List (Nat × Record)} {rs : List Record}, readLine bytes = .ok record →
      rs = record.toList ++ items.map Prod.snd →
      (∃ lines : List (List UInt8), rest = lines.map .line ∧
        (∀ line ∈ lines, ∃ record, readLine line = .ok record) ∧
        items.map Prod.snd = lines.filterMap lineRecord?) →
      ∃ lines : List (List UInt8), Delivery.line bytes :: rest = lines.map .line ∧
        (∀ line ∈ lines, ∃ record, readLine line = .ok record) ∧
        rs = lines.filterMap lineRecord? := by
    rintro bytes record rest items rs hline rfl ⟨lines, rfl, hread, hitems⟩
    refine ⟨bytes :: lines, rfl, List.forall_mem_cons.2 ⟨⟨record, hline⟩, hread⟩, ?_⟩
    have hrecord : lineRecord? bytes = record := by rw [lineRecord?, hline]
    rw [hitems, List.filterMap_cons, hrecord]
    cases record <;> rfl
  fun_induction itemsFrom count ds generalizing items with
  | case1 => exact ⟨[], rfl, by simp, by simpa using h.symm⟩
  | case2 => cases items <;> cases h
  | case3 _ bytes _ hline ih => exact more hline rfl (ih h)
  | case4 _ bytes _ record hline ih =>
    cases items with
    | nil => cases h
    | cons item items =>
      obtain ⟨hitem, hrest⟩ := List.cons.inj h
      obtain rfl := Except.ok.inj hitem
      exact more hline rfl (ih hrest)
  | case5 => cases items <;> cases h

/-- Lines that can be read yield records and no errors, the converse of `lines_of_itemsFrom`. -/
theorem itemsFrom_of_lines (count : Nat) {lines : List (List UInt8)}
    (h : ∀ line ∈ lines, ∃ record, readLine line = .ok record) :
    ∃ items : List (Nat × Record), itemsFrom count (lines.map .line) = items.map .ok := by
  induction lines generalizing count with
  | nil => exact ⟨[], rfl⟩
  | cons line lines ih =>
    obtain ⟨⟨record, hline⟩, hrest⟩ := List.forall_mem_cons.1 h
    obtain ⟨items, hitems⟩ := ih (count + 1) hrest
    rw [readLine] at hline
    -- A line without a record is counted, and yields no item.
    cases record with
    | none => exact ⟨items, by simp only [List.map_cons, itemsFrom, hline, hitems]⟩
    | some record =>
      exact ⟨(count + 1, record) :: items, by simp only [List.map_cons, itemsFrom, hline, hitems]⟩

/-- The stream does not fail, and each line can be read. It is what a pass needs of a dump before it
looks at the order of the records. -/
structure Readable (dump : Source) : Prop where
  /-- The stream comes to its end. -/
  error : dump.error = none
  /-- Each line is accepted by itself, with or without a record. -/
  lines : ∀ line ∈ dump.bareLines, ∃ record, readLine line = .ok record

/-- A dump of which all items are records is readable, and its records are those of its lines. -/
theorem lines_of_records {dump : Source} {items : List (Nat × Record)}
    (h : records dump = items.map .ok) :
    Readable dump ∧ items.map Prod.snd = dump.bareLines.filterMap lineRecord? := by
  obtain ⟨lines, hlines, hread, hitems⟩ := lines_of_itemsFrom h
  obtain ⟨herror, hsplit⟩ : dump.error = none ∧ lines = splitLines dump.bytes := by
    rw [Source.deliveries] at hlines
    split at hlines
    · next hnone =>
      exact ⟨hnone, (List.map_inj_right fun _ _ heq => Delivery.line.inj heq).1 hlines.symm⟩
    · next e _ =>
      -- An error behind the lines would be among the deliveries.
      have hmem : Delivery.failure e ∈ lines.map .line := hlines ▸ by simp
      obtain ⟨_, -, heq⟩ := List.mem_map.1 hmem
      cases heq
  subst hsplit
  refine ⟨⟨herror, fun line hline => ?_⟩, ?_⟩
  · obtain ⟨whole, hwhole, rfl⟩ := List.mem_map.1 hline
    rw [readLine_dropLineFeed]
    exact hread whole hwhole
  · have hbare : ∀ line, lineRecord? (dropLineFeed line) = lineRecord? line := fun line => by
      rw [lineRecord?, lineRecord?, readLine_dropLineFeed]
    rw [hitems, Source.bareLines, List.filterMap_map]
    exact List.filterMap_congr fun line _ => (hbare line).symm

/-- The records of a dump are those of its lines. Theorems about changed dumps compare `bareLines`
and use this on both sides. -/
theorem map_snd_of_records {dump : Source} {items : List (Nat × Record)}
    (h : records dump = items.map .ok) :
    items.map Prod.snd = dump.bareLines.filterMap lineRecord? :=
  (lines_of_records h).2

/-- A dump yields records and no errors if and only if it is readable. `Readable` asks this of each
line by itself, which does not depend on their order. -/
theorem records_eq_ok_iff {dump : Source} :
    (∃ items : List (Nat × Record), records dump = items.map .ok) ↔ Readable dump := by
  constructor
  · rintro ⟨items, hitems⟩
    exact (lines_of_records hitems).1
  · intro h
    -- The reader meets lines with their line feed, and `Readable` speaks of them without.
    have hread : ∀ line ∈ splitLines dump.bytes, ∃ record, readLine line = .ok record :=
      fun line hline => by
        rw [← readLine_dropLineFeed]
        exact h.lines _ (List.mem_map_of_mem hline)
    obtain ⟨items, hitems⟩ := itemsFrom_of_lines 0 hread
    exact ⟨items, by rw [records, Source.deliveries, h.error, hitems]⟩

end Dump

end WebOfTrust
