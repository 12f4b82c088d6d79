import WebOfTrust.Proofs.Lines
import WebOfTrust.Proofs.Outcome
import WebOfTrust.Proofs.Text.Fields
import WebOfTrust.StatusTable

/-!
# `WebOfTrust.Proofs.StatusTable`: the key-status table is read as it was written

The second pass prints the lines that it reads from the first, so printing and reading have to undo
each other. Fields are written without escaping: a date with a semicolon gives a line that no reader
accepts.

- `StatusLine.parse_render`: a writable line is read back;
- `StatusLine.writable_of_parse`: a line that is read is writable;
- `StatusLine.separator_free_of_parse_render`: a line that can be read back has no semicolon in its
  dates;
- `StatusTable.writable_of_lines`: so are the lines of a table that is read;
- `StatusTable.lines_unlines`: a table is read back line by line.
-/

set_option autoImplicit false

namespace WebOfTrust

open Text

/-! ### Fields without separators -/

/-- A key id has no characters but hexadecimal digits. In particular it has neither a semicolon nor
a line feed, so it can stand in any table. -/
theorem KeyId.not_mem_text (k : KeyId) {c : Char} (h : isHexDigit c = false) :
    c ∉ k.text.toList := by
  intro hc
  rw [List.all_eq_true.1 k.wellFormed.2 c hc] at h
  cases h

/-- The code of a status has letters only, apart from the question mark of `KeyStatus.unvalidated`.
So it has neither a semicolon nor a line feed. -/
theorem KeyStatus.not_mem_code (s : KeyStatus) {c : Char} (h : c.isAlpha = false)
    (hq : c ≠ '?') : c ∉ s.code.toList := by
  intro hc
  have all : ∀ d ∈ s.code.toList, d.isAlpha = true ∨ d = '?' := by cases s <;> simp [code]
  rcases all c hc with hd | hd
  · rw [h] at hd
    cases hd
  · exact hq hd

/-- No code stands for the status of a key whose records are still to come. A line that is read has
a settled status, therefore, and can be written again. -/
theorem KeyStatus.ne_unvalidated_of_ofCode {code : String} {s : KeyStatus}
    (h : KeyStatus.ofCode code = .ok s) : s ≠ .unvalidated := by
  simp only [KeyStatus.ofCode] at h
  repeat' split at h
  all_goals cases h
  all_goals decide

namespace StatusLine

/-- What makes a line come back as it was written: its status is settled, its algorithm is known
under its number, and its dates have no semicolon. Its numbers may be any, since their types bound
them. -/
structure Writable (l : StatusLine) : Prop where
  settled : l.status ≠ .unvalidated
  algorithm : PublicKeyAlgorithm.ofByte l.algorithm.toByte = l.algorithm
  created : ';' ∉ l.created.toList
  expires : ';' ∉ l.expires.toList

/-- Only the dates can hold a semicolon. All other fields of `StatusLine.fields` are ids, codes and
numbers. -/
theorem separator_free_fields_iff (l : StatusLine) :
    (∀ f ∈ l.fields, ';' ∉ f.toList) ↔ ';' ∉ l.created.toList ∧ ';' ∉ l.expires.toList := by
  have hcode : ';' ∉ l.status.code.toList := l.status.not_mem_code (by decide) (by decide)
  have hid : ';' ∉ l.keyId.text.toList := l.keyId.not_mem_text (by decide)
  have hnum : ∀ n : Nat, ';' ∉ (toString n).toList := fun n => not_mem_toString (by decide)
  simp only [fields, List.mem_cons, List.not_mem_nil, or_false, forall_eq_or_imp, forall_eq]
  constructor
  · rintro ⟨-, -, -, -, hc, he, -⟩
    exact ⟨hc, he⟩
  · rintro ⟨hc, he⟩
    exact ⟨hcode, hid, hnum _, hnum _, hc, he, hnum _, hnum _⟩

/-- A line ends with the number of user ids. It is written by `toString`, so its last character is a
digit. -/
theorem getLast?_render (l : StatusLine) :
    ∃ c, l.render.toList.getLast? = some c ∧ c.isDigit = true := by
  rw [render, show l.fields = l.fields.dropLast ++ [toString l.validIdentities.toNat] from rfl]
  exact getLast?_ofFields_number ';' (by simp [fields]) _

/-- No blank stands at the end of a line, by `getLast?_render`. The reader trims lines there before
it takes them apart. -/
theorem trimEnd_render (l : StatusLine) : trimEnd l.render.toList = l.render.toList := by
  obtain ⟨c, hc, hdigit⟩ := l.getLast?_render
  exact trimEnd_eq_self hc (isBlank_of_isDigit hdigit)

/-- A line is not blank, so a table has no line that a reader would pass over. -/
theorem trim_render_ne_nil (l : StatusLine) : trim l.render.toList ≠ [] := by
  obtain ⟨c, hc, hdigit⟩ := l.getLast?_render
  exact trim_ne_nil hc (isBlank_of_isDigit hdigit)

/-- A line is one line of text as long as its dates are. It ends with a number, so it does not end
with a carriage return either. -/
theorem isLine_render {l : StatusLine} (hc : '\n' ∉ l.created.toList)
    (he : '\n' ∉ l.expires.toList) : IsLine l.render := by
  constructor
  · intro h
    rcases mem_ofFields h with h | ⟨f, hf, hmem⟩
    · cases h
    -- A line feed would be in one of the fields, but codes, ids and numbers have none.
    have hcode : '\n' ∉ l.status.code.toList := l.status.not_mem_code (by decide) (by decide)
    have hid : '\n' ∉ l.keyId.text.toList := l.keyId.not_mem_text (by decide)
    have hnum : ∀ n : Nat, '\n' ∉ (toString n).toList := fun n => not_mem_toString (by decide)
    simp only [fields, List.mem_cons, List.not_mem_nil, or_false] at hf
    rcases hf with rfl | rfl | rfl | rfl | rfl | rfl | rfl | rfl
    · exact hcode hmem
    · exact hid hmem
    · exact hnum _ hmem
    · exact hnum _ hmem
    · exact hc hmem
    · exact he hmem
    · exact hnum _ hmem
    · exact hnum _ hmem
  · obtain ⟨c, hlast, hdigit⟩ := l.getLast?_render
    rw [hlast]
    rintro h
    rw [Option.some.inj h] at hdigit
    exact absurd hdigit (by decide)

/-! ### Reading what was written -/

/-- A writable line is read back. The reader counts eight fields, because no field has a semicolon,
and each of them is what was written. -/
theorem parse_render {l : StatusLine} (h : l.Writable) : parse l.render = .ok l := by
  have hfields : (splitOn ';' l.render.toList).map String.ofList = l.fields :=
    splitOn_ofFields (by simp [fields])
      (l.separator_free_fields_iff.2 ⟨h.created, h.expires⟩)
  have hnum : ∀ {n : Nat} (i : Nat), n < UInt64.size → numberField i (toString n) = .ok n := by
    intro n i hn
    rw [numberField, readNumber_toString hn]
  have hnarrow : ∀ {n limit : Nat} (i : Nat), n < limit → narrow limit i n = .ok n := by
    intro n limit i hn
    rw [narrow, if_pos hn]
  -- Numbers are read as 64-bit ones and narrowed after that, so each has two bounds to meet.
  have hbyte : l.algorithm.toByte.toNat < UInt8.size := l.algorithm.toByte.toNat_lt
  have hbits : l.bits.toNat < UInt32.size := l.bits.toNat_lt
  have hversion : l.version.toNat < UInt8.size := l.version.toNat_lt
  have hids : l.validIdentities.toNat < UInt64.size := l.validIdentities.toNat_lt
  have h8 : UInt8.size < UInt64.size := by decide
  have h32 : UInt32.size < UInt64.size := by decide
  rw [parse, trimEnd_render, hfields]
  simp only [fields, bind, Except.bind]
  rw [hnum 2 (by omega), hnum 3 (by omega), hnum 6 (by omega), KeyStatus.ofCode_code h.settled,
    KeyId.parse_text, hnum 7 hids]
  simp only [except_mapError_ok]
  rw [hnarrow 2 hbyte, hnarrow 3 hbits, hnarrow 6 hversion]
  simp [h.algorithm, pure, Except.pure]

/-- A line of which the reader counts eight fields has no semicolon in its dates. It is the converse
of `parse_render` as far as semicolons go, and shows where a table is refused. -/
theorem separator_free_of_parse_render {l l' : StatusLine} (h : parse l.render = .ok l') :
    ';' ∉ l.created.toList ∧ ';' ∉ l.expires.toList := by
  rw [← separator_free_fields_iff, ← length_splitOn_ofFields_iff (by simp [fields])]
  rw [parse, trimEnd_render] at h
  split at h
  · next hfields =>
    have hlength := congrArg List.length hfields
    rw [List.length_map] at hlength
    exact hlength
  · cases h

/-- A line that is read is writable, and its dates are parts of its text. Whatever the spelling of
the line was, it can be written in the usual one. -/
theorem writable_of_parse {text : String} {l : StatusLine} (h : parse text = .ok l) :
    l.Writable ∧ (∀ c ∈ l.created.toList, c ∈ text.toList) ∧
      ∀ c ∈ l.expires.toList, c ∈ text.toList := by
  simp only [parse] at h
  split at h
  · next status keyId algorithm bits created expires version identities hfields =>
    simp only [except_bind_eq_ok, except_pure_eq_ok, except_mapError_eq_ok] at h
    obtain ⟨_, -, _, -, _, -, s, hs, _, -, _, -, _, -, _, -, _, -, rfl⟩ := h
    -- The reader trims the line at its end, which adds no characters to its fields.
    have field : ∀ f ∈ [status, keyId, algorithm, bits, created, expires, version, identities],
        ';' ∉ f.toList ∧ ∀ c ∈ f.toList, c ∈ text.toList := by
      intro f hf
      rw [← hfields] at hf
      obtain ⟨hsep, hmem⟩ := field_of_splitOn hf
      exact ⟨hsep, fun c hc => mem_of_mem_trimEndWhere (hmem c hc)⟩
    obtain ⟨hc, hcm⟩ := field created (by simp)
    obtain ⟨he, hem⟩ := field expires (by simp)
    refine ⟨⟨?_, ?_, hc, he⟩, hcm, hem⟩
    · exact KeyStatus.ne_unvalidated_of_ofCode hs
    · rw [PublicKeyAlgorithm.toByte_ofByte]
  · cases h

/-- The dates of a line are on one line of text. `Writable` does not ask for this, as a single line
is read without looking for line feeds. -/
def OnOneLine (l : StatusLine) : Prop :=
  '\n' ∉ l.created.toList ∧ '\n' ∉ l.expires.toList

end StatusLine

/-! ### Tables -/

namespace StatusTable

/-- Whether a line of text carries nothing. A reader of a table passes it over, and counts it. -/
def isBlankLine (text : String) : Bool := (trim text.toList).isEmpty

/-- A blank line gives no item, but the lines behind it have their numbers from the text. -/
theorem linesFrom_blank {count : Nat} {text : String} {items : List (Except IoError String)}
    (h : isBlankLine text = true) :
    linesFrom count (.ok text :: items) = linesFrom (count + 1) items := by
  rw [linesFrom, if_pos (List.isEmpty_iff.1 h)]

/-- A line that is not blank gives an item: what `StatusLine.parse` makes of it, under its number if
it is an error. -/
theorem linesFrom_line {count : Nat} {text : String} {items : List (Except IoError String)}
    (h : isBlankLine text = false) :
    linesFrom count (.ok text :: items)
      = (StatusLine.parse text).mapError (.malformed (count + 1))
        :: linesFrom (count + 1) items := by
  rw [linesFrom, if_neg fun hnil => by simp [isBlankLine, hnil] at h]

/-- A table that is read without error is delivered whole, and its lines are what the text lines
that are not blank are read as, in their order. The induction is on what is delivered. -/
theorem texts_of_linesFrom {count : Nat} {items : List (Except IoError String)}
    {ls : List StatusLine} (h : linesFrom count items = ls.map .ok) :
    ∃ texts : List String, items = texts.map .ok ∧
      (texts.filter fun t => !isBlankLine t).map StatusLine.parse = ls.map .ok := by
  induction items generalizing count ls with
  | nil => exact ⟨[], rfl, by simpa [linesFrom] using h⟩
  | cons item items ih =>
    cases item with
    | error e => cases ls <;> cases h
    | ok text =>
      -- A blank line gives no item, so the two lists do not run in step.
      cases hb : isBlankLine text with
      | true =>
        rw [linesFrom_blank hb] at h
        obtain ⟨texts, rfl, htexts⟩ := ih h
        exact ⟨text :: texts, rfl, by simpa [hb] using htexts⟩
      | false =>
        rw [linesFrom_line hb] at h
        cases ls with
        | nil => cases h
        | cons l ls =>
          obtain ⟨hl, hrest⟩ := List.cons.inj h
          obtain ⟨texts, rfl, htexts⟩ := ih hrest
          exact ⟨text :: texts, rfl, by simp [hb, except_mapError_eq_ok.1 hl, htexts]⟩

/-- Text lines that are read one by one are read as a table, the converse of `texts_of_linesFrom`.
Numbers of lines have no part in it, since there is no error to carry one. -/
theorem linesFrom_texts {texts : List String} {ls : List StatusLine} (count : Nat)
    (h : (texts.filter fun t => !isBlankLine t).map StatusLine.parse = ls.map .ok) :
    linesFrom count (texts.map .ok) = ls.map .ok := by
  induction texts generalizing count ls with
  | nil => simpa [linesFrom] using h
  | cons text texts ih =>
    rw [List.map_cons]
    -- As in `texts_of_linesFrom`, only lines that are not blank are read.
    cases hb : isBlankLine text with
    | true =>
      rw [linesFrom_blank hb]
      exact ih _ (by simpa [hb] using h)
    | false =>
      rw [linesFrom_line hb]
      cases ls with
      | nil => simp [hb] at h
      | cons l ls =>
        simp only [hb, List.filter_cons, Bool.not_false, if_true, List.map_cons,
          List.cons.injEq] at h
        rw [h.1, ih _ h.2]
        rfl

/-- The lines of a table that is read without error are writable: their dates come from between
semicolons, and from single lines of text. -/
theorem writable_of_lines {source : Source} {ls : List StatusLine}
    (h : lines source = ls.map .ok) : ∀ l ∈ ls, l.Writable ∧ l.OnOneLine := by
  intro l hl
  obtain ⟨texts, htexts, hparsed⟩ := texts_of_linesFrom h
  have hmem : Except.ok l ∈ (texts.filter fun t => !isBlankLine t).map StatusLine.parse := by
    rw [hparsed]
    exact List.mem_map_of_mem hl
  obtain ⟨t, ht, hread⟩ := List.mem_map.1 hmem
  have hdelivered : .ok t ∈ source.textLines := by
    rw [htexts]
    exact List.mem_map_of_mem (List.mem_filter.1 ht).1
  -- A delivered line has no line feed, so no field of it has one.
  have hone : '\n' ∉ t.toList := lineFeed_not_mem_of_textLines hdelivered
  obtain ⟨hwritable, hcreated, hexpires⟩ := StatusLine.writable_of_parse hread
  exact ⟨hwritable, fun hn => hone (hcreated _ hn), fun hn => hone (hexpires _ hn)⟩

/-- No line that is written is blank, since it has a number at its end. Blank lines are passed over
by `linesFrom`. -/
theorem isBlankLine_render (l : StatusLine) : isBlankLine l.render = false := by
  simpa [isBlankLine] using l.trim_render_ne_nil

/-- None of the lines of a written table is passed over. So the filter in `texts_of_linesFrom` can
be left out for them. -/
theorem filter_render (ls : List StatusLine) :
    (ls.map StatusLine.render).filter (fun t => !isBlankLine t) = ls.map StatusLine.render := by
  rw [List.filter_eq_self]
  intro t ht
  obtain ⟨l, -, rfl⟩ := List.mem_map.1 ht
  simp [isBlankLine_render]

/-- A table is delivered as it was written, if its dates are on one line each. `isLine_render` says
so of each line. -/
theorem textLines_render {ls : List StatusLine} (h : ∀ l ∈ ls, l.OnOneLine) :
    (Source.ofString (unlines (ls.map StatusLine.render))).textLines
      = (ls.map StatusLine.render).map .ok := by
  apply textLines_unlines
  intro t ht
  obtain ⟨l, hl, rfl⟩ := List.mem_map.1 ht
  exact StatusLine.isLine_render (h l hl).1 (h l hl).2

/-- A table is read back line by line: `textLines_render` for its lines of text and
`StatusLine.parse_render` for each of them. -/
theorem lines_unlines {ls : List StatusLine} (h : ∀ l ∈ ls, l.Writable ∧ l.OnOneLine) :
    lines (Source.ofString (unlines (ls.map StatusLine.render))) = ls.map .ok := by
  rw [lines, textLines_render fun l hl => (h l hl).2]
  apply linesFrom_texts
  rw [filter_render, List.map_map]
  apply List.map_congr_left
  intro l hl
  rw [Function.comp_apply, StatusLine.parse_render (h l hl).1]

/-- If a table that was written is read without error, then no date in it has a semicolon. By this
the second pass tells something of the dump that the first pass has read. -/
theorem separator_free_of_lines {ls ls' : List StatusLine} (h : ∀ l ∈ ls, l.OnOneLine)
    (hread : lines (Source.ofString (unlines (ls.map StatusLine.render))) = ls'.map .ok) :
    ∀ l ∈ ls, ';' ∉ l.created.toList ∧ ';' ∉ l.expires.toList := by
  rw [lines, textLines_render h] at hread
  obtain ⟨texts, htexts, hparse⟩ := texts_of_linesFrom hread
  rw [← map_ok_inj.1 htexts, filter_render] at hparse
  intro l hl
  -- The line of `l` was not blank, so it is one of those that were read.
  have hmem : StatusLine.parse l.render ∈ ls'.map Except.ok := by
    rw [← hparse]
    exact List.mem_map_of_mem (List.mem_map_of_mem hl)
  obtain ⟨l', -, hl'⟩ := List.mem_map.1 hmem
  exact StatusLine.separator_free_of_parse_render hl'.symm

/-- `text` is the table of the lines `ls`: they are written as `text`, and `text` is read as them.
Theorems about final artifacts say so of a table, and do not have to choose a side. -/
structure Holds (text : String) (ls : List StatusLine) : Prop where
  /-- The text has a line for each of `ls`, in their order. -/
  written : text = unlines (ls.map StatusLine.render)
  /-- A reader of the text gets `ls` and no error. -/
  read : lines (Source.ofString text) = ls.map .ok

/-- Lines that are writable and on one line each are what their table holds. `Holds` joins what is
written, which is so by definition, and `lines_unlines`. -/
theorem holds_unlines {ls : List StatusLine} (h : ∀ l ∈ ls, l.Writable ∧ l.OnOneLine) :
    Holds (unlines (ls.map StatusLine.render)) ls :=
  ⟨rfl, lines_unlines h⟩

end StatusTable

end WebOfTrust
