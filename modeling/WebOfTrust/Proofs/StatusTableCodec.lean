import WebOfTrust.Proofs.Artifacts
import WebOfTrust.Proofs.StatusTable

/-!
# `WebOfTrust.Proofs.StatusTableCodec`: a key-status table is stable once it was read

A line has three numbers that the reader takes as 64-bit ones before it narrows them, one of them
the number of an algorithm, and two texts that are written as they are. A settled line whose texts
have neither semicolons nor line feeds comes back as it was written, and so does a table of such
lines.

The other direction is about tables that were written elsewhere, with a sign or leading zeros before
a number, blanks behind a line, or blank lines. The reader makes lines of the first kind of them, so
they are spelled anew once and the same from then on.

- `StatusLine.Encodable`: the lines that come back;
- `status_table_written_and_read`: lines and tables in both directions.
-/

set_option autoImplicit false

namespace WebOfTrust

open Text

/-! ### Lines -/

/-- A line of which the status is settled and the algorithm has a number, and whose texts have
neither semicolons nor line feeds. Its numbers may be any. In contrast to `StatusLine.Writable` it
speaks of no function of the codec. -/
structure StatusLine.Encodable (l : StatusLine) : Prop where
  /-- A key whose records are still to come has no line. -/
  settled : l.status ≠ .unvalidated
  /-- The algorithm is not one of the unknown ones under the number of a known one. -/
  algorithm : ∃ n, PublicKeyAlgorithm.ofByte n = l.algorithm
  /-- These are the only fields that are written as they are. -/
  texts : ∀ f ∈ [l.created, l.expires], ';' ∉ f.toList ∧ '\n' ∉ f.toList

/-- An encodable line has what the lemmas about `parse` and `render` ask for. -/
theorem StatusLine.Encodable.writable {l : StatusLine} (h : l.Encodable) :
    l.Writable ∧ l.OnOneLine := by
  obtain ⟨n, hn⟩ := h.algorithm
  obtain ⟨hcreated, hexpires⟩ : _ ∧ _ := by
    simpa only [List.mem_cons, List.not_mem_nil, or_false, forall_eq_or_imp, forall_eq]
      using h.texts
  refine ⟨⟨h.settled, ?_, hcreated.1, hexpires.1⟩, hcreated.2, hexpires.2⟩
  rw [← hn, PublicKeyAlgorithm.toByte_ofByte]

/-! ### Tables -/

/-- A line is written to faultless artifacts, whatever is in it. Whether it can be read again is
another question. -/
theorem Artifacts.Faultless.writeStatus {out : Artifacts} (h : out.Faultless) (l : StatusLine) :
    ∃ out', out.writeStatus l = .ok out' ∧ out'.Faultless ∧
      out.Gain out' (l.render ++ "\n") "" := by
  obtain ⟨out', hwrite, h'⟩ := h.write .keyStatus l.pieces
  exact ⟨out', hwrite, h', gain_writeStatus hwrite⟩

namespace StatusTable

/-- `text` is what the lines are written as, from the first one on. The writer is the one of the
passes, `Artifacts.writeStatus`. -/
def Written (ls : List StatusLine) (text : String) : Prop :=
  ∃ out, ls.foldlM Artifacts.writeStatus {} = .ok out ∧ out.status.text = text

/-- Lines are written as the text of their renderings, each with a line feed. -/
theorem written_unlines (ls : List StatusLine) :
    Written ls (unlines (ls.map StatusLine.render)) := by
  obtain ⟨out, hout, hgain⟩ := Artifacts.faultless_empty.foldlM (fun h l => h.writeStatus l) ls
  refine ⟨out, hout, ?_⟩
  rw [hgain.status, unlines, List.map_map]
  exact String.empty_append

end StatusTable

/-- Lines that are written come back, one by one and as a table. Lines that are read come back once
they are written, however they were spelled, and a table of them is written the same from then on.
The four parts are: one encodable line, a table of them, one line that was read, a table that was
read. -/
theorem status_table_written_and_read :
    (∀ l : StatusLine, l.Encodable → StatusLine.parse l.render = .ok l) ∧
    (∀ ls : List StatusLine, (∀ l ∈ ls, l.Encodable) →
      ∃ text, StatusTable.Written ls text ∧ StatusTable.Holds text ls) ∧
    (∀ (text : String) (l : StatusLine),
      StatusLine.parse text = .ok l → StatusLine.parse l.render = .ok l) ∧
    ∀ (source : Source) (ls : List StatusLine), StatusTable.lines source = ls.map .ok →
      ∃ text, StatusTable.Written ls text ∧ StatusTable.Holds text ls := by
  have table : ∀ ls : List StatusLine, (∀ l ∈ ls, l.Writable ∧ l.OnOneLine) →
      ∃ text, StatusTable.Written ls text ∧ StatusTable.Holds text ls := fun ls h =>
    ⟨_, StatusTable.written_unlines ls, StatusTable.holds_unlines h⟩
  refine ⟨fun l h => StatusLine.parse_render h.writable.1,
    fun ls h => table ls fun l hl => (h l hl).writable,
    fun text l h => ?_, fun source ls h => table ls (StatusTable.writable_of_lines h)⟩
  -- The reader has taken the dates from between semicolons, so they have none.
  exact StatusLine.parse_render (StatusLine.writable_of_parse h).1

/-- A line with the largest numbers, an algorithm outside the registry and a carriage return at the
end of a date, and one whose texts are empty. A carriage return does no harm within a line. -/
def extremeLines : List StatusLine :=
  [⟨.certified, .ofText "aB", .unknown 99, 4294967295, "2001\r", "", 255,
      18446744073709551615⟩,
    ⟨.revokedByDesignatedRevoker, .ofText "0", .privateUse 100, 0, "", "", 0, 0⟩]

/-- A line with signs and leading zeros before its numbers, and blanks behind it. Its rendering has
neither. -/
def looseLine : String := "V;AA;+017;0001024;2001-01-01 ;;04;+0 \t"

/-- All four parts at once: `extremeLines` one by one and as a table, `looseLine` alone, and a table
of it with blank lines and a carriage return at the end of its line. -/
theorem status_table_written_and_read_extremeLines :
    (∀ l ∈ extremeLines, StatusLine.parse l.render = .ok l) ∧
      (∃ text, StatusTable.Written extremeLines text ∧ StatusTable.Holds text extremeLines) ∧
      (∃ l, StatusLine.parse looseLine = .ok l ∧
        l.render = "V;AA;17;1024;2001-01-01 ;;4;0" ∧ StatusLine.parse l.render = .ok l) ∧
      ∃ ls, StatusTable.lines (.ofString ("\n" ++ looseLine ++ "\r\n \n")) = ls.map .ok ∧
        ls.length = 1 ∧ ∃ text, StatusTable.Written ls text ∧ StatusTable.Holds text ls := by
  have hencodable : ∀ l ∈ extremeLines, l.Encodable := by
    intro l hl
    simp only [extremeLines, List.mem_cons, List.not_mem_nil, or_false] at hl
    rcases hl with rfl | rfl
    · exact ⟨by decide, ⟨99, rfl⟩, by decide⟩
    · exact ⟨by decide, ⟨100, rfl⟩, by decide⟩
  -- Blanks at the end of the line are dropped, those within a field are kept.
  have hloose : StatusLine.parse looseLine
      = .ok ⟨.valid, ⟨"AA", by decide⟩, .dsa, 1024, "2001-01-01 ", "", 4, 0⟩ := by
    rfl
  have hread : StatusTable.lines (.ofString ("\n" ++ looseLine ++ "\r\n \n"))
      = [⟨.valid, ⟨"AA", by decide⟩, .dsa, 1024, "2001-01-01 ", "", 4, 0⟩].map .ok := by
    rfl
  exact ⟨fun l hl => status_table_written_and_read.1 l (hencodable l hl),
    status_table_written_and_read.2.1 _ hencodable,
    ⟨_, hloose, by decide +kernel, status_table_written_and_read.2.2.1 _ _ hloose⟩,
    ⟨_, hread, rfl, status_table_written_and_read.2.2.2 _ _ hread⟩⟩

end WebOfTrust
