import Mathlib.Data.List.Forall2
import Mathlib.Data.List.Induction
import WebOfTrust.Proofs.Corpus
import WebOfTrust.Proofs.Text.Rows

/-!
# `WebOfTrust.Proofs.CorpusGrammar`: the texts that are corpora

A row of a corpus is empty, a header or the row of a certification, and the first one that is not
empty is a header. The reader holds a block back until the next header or the end is met, so what it
has given behind some rows is all blocks that these rows spell but the last one. This is the
invariant over the rows, taken from the end, as each row is added to what the rows before it spell.
The first row that fits nowhere gives an error with its number, and the block that was held back is
not given before it.

- `parse_eq_certification_iff` and its siblings: what each kind of row is read as;
- `Corpus.blocksFrom_of_spells`: what the reader has given behind some rows;
- `corpus_reader_grammar`: a text is read without error if it is a corpus, and what is given of it.
-/

set_option autoImplicit false

namespace WebOfTrust

open Text

/-! ### Rows -/

/-- The row of a header: the letter `p` and the id of the signee, with nothing between them or
behind. -/
def headerRow (signee : KeyId) : List Char := 'p' :: signee.text.toList

/-- The row of a certification: eight fields without semicolons, of which the first is a key id and
the last four are bytes. The texts between them may be anything, so what they mean is not checked
here. -/
inductive EntryRow : List Char → Signature → Prop
  | intro {issuer : KeyId} {date expires flags level algorithm hash version : String}
      {levelByte algorithmByte hashByte versionByte : UInt8}
      (separated : ∀ f ∈ [issuer.text, date, expires, flags, level, algorithm, hash, version],
        ';' ∉ f.toList)
      (hlevel : readByte level = some levelByte)
      (halgorithm : readByte algorithm = some algorithmByte)
      (hhash : readByte hash = some hashByte)
      (hversion : readByte version = some versionByte) :
      EntryRow
        ('s' :: (ofFields ';'
          [issuer.text, date, expires, flags, level, algorithm, hash, version]).toList)
        { issuer, date, expires, flags
          level := .ofByte levelByte
          algorithm := .ofByte algorithmByte
          hash := .ofByte hashByte
          version := versionByte }

/-- A field is accepted as a byte if `readByte` accepts it; the index only goes into the error. -/
theorem certificationByte_eq_ok_iff {index : Nat} {text : String} {b : UInt8} :
    certificationByte index text = .ok b ↔ readByte text = some b := by
  rw [certificationByte]
  cases readByte text <;> simp

/-- What stands between separators, with separators between again, is the text that was taken apart.
With it a row is told by its fields. -/
theorem ofFields_splitOn (sep : Char) (cs : List Char) :
    (ofFields sep ((splitOn sep cs).map String.ofList)).toList = cs := by
  rw [ofFields, String.toList_ofList, List.map_map]
  have hid : String.toList ∘ String.ofList = id := funext fun _ => String.toList_ofList
  rw [hid, List.map_id, join_splitOn]

/-- The fields of a certification are taken from between the semicolons of its row. The relation on
the right is the grammar, so the reader accepts what the grammar has and reads it as the grammar
says. `separated` in the grammar is what makes the fields unique. -/
theorem ofCorpusLine_eq_ok_iff {line : String} {s : Signature} :
    Signature.ofCorpusLine line = .ok s ↔ EntryRow line.toList s := by
  constructor
  · intro h
    simp only [Signature.ofCorpusLine] at h
    split at h
    case h_2 => cases h
    next body hbody =>
    split at h
    case h_2 => cases h
    next issuer date expires flags level algorithm hash version hfields =>
    simp only [except_bind_eq_ok, except_map_eq_ok, except_pure_eq_ok, except_mapError_eq_ok,
      certificationByte_eq_ok_iff, KeyId.parse_eq_ok_iff] at h
    obtain ⟨k, rfl, _, ⟨l, hlevel, rfl⟩, _, ⟨a, halgorithm, rfl⟩, _, ⟨b, hhash, rfl⟩, v, hversion,
      rfl⟩ := h
    -- The fields come from between semicolons, so with semicolons between them they are the line.
    have hline : line.toList = 's' :: (ofFields ';'
        [k.text, date, expires, flags, level, algorithm, hash, version]).toList := by
      rw [hbody, ← hfields, ofFields_splitOn]
    have hseparated : ∀ f ∈ [k.text, date, expires, flags, level, algorithm, hash, version],
        ';' ∉ f.toList := by
      intro f hf
      rw [← hfields] at hf
      exact (field_of_splitOn hf).1
    rw [hline]
    exact .intro hseparated hlevel halgorithm hhash hversion
  · intro h
    generalize hline : line.toList = row at h
    cases h with
    | intro separated hlevel halgorithm hhash hversion =>
      -- No field has a semicolon, so the reader takes the line apart where the grammar put it
      -- together.
      have hfields := splitOn_ofFields (by simp) separated
      simp only [Signature.ofCorpusLine, hline, hfields, KeyId.parse_text,
        certificationByte_eq_ok_iff.2 hlevel, certificationByte_eq_ok_iff.2 halgorithm,
        certificationByte_eq_ok_iff.2 hhash, certificationByte_eq_ok_iff.2 hversion]
      rfl

namespace CorpusLine

variable {line : String}

/-- A line carries nothing if and only if its row is empty, that is if it has blanks only. -/
theorem parse_eq_blank_iff : parse line = .ok .blank ↔ rowOf line = [] := by
  simp only [parse, rowOf]
  split
  · next h => simp [h]
  · next h => simp [h, except_map_eq_ok]
  · next h => simp [h, except_map_eq_ok]
  · next hblank _ _ =>
    simp only [reduceCtorEq, false_iff]
    exact hblank

/-- A line is read as the header of `k` if and only if its row is `headerRow k`. A header is refused
for nothing but its id, so no further condition appears. -/
theorem parse_eq_header_iff {k : KeyId} :
    parse line = .ok (.header k) ↔ rowOf line = headerRow k := by
  simp only [parse, rowOf]
  split
  · next h => simp [h, headerRow]
  · next signee h =>
    rw [h, except_map_eq_ok]
    simp only [header.injEq, exists_eq_right, except_mapError_eq_ok, KeyId.parse_eq_ok_iff,
      headerRow, List.cons.injEq, true_and]
    rw [eq_comm, ← String.toList_inj, String.toList_ofList]
  · next h => simp [h, headerRow, except_map_eq_ok]
  · next hheader _ =>
    simp only [reduceCtorEq, false_iff]
    exact hheader _

/-- A line is read as the certification `s` if and only if its row has the form that `EntryRow` asks
for. The blanks behind a line are gone from its row, so the last field is not touched by them.
`rowOf` is the line without the blanks at its end, which is what `CorpusLine.parse` looks at. -/
theorem parse_eq_certification_iff {s : Signature} :
    parse line = .ok (.certification s) ↔ EntryRow (rowOf line) s := by
  -- The reader looks at the first letter before it reads the fields.
  have hstart : EntryRow (rowOf line) s → ∃ body, rowOf line = 's' :: body := by
    intro h
    generalize rowOf line = row at h
    cases h with
    | intro => exact ⟨_, rfl⟩
  constructor
  · intro h
    have hread := ofCorpusLine_eq_ok_iff.1 (certification_of_parse h)
    rwa [String.toList_ofList] at hread
  · intro h
    obtain ⟨body, hbody⟩ := hstart h
    have hread : Signature.ofCorpusLine (String.ofList (rowOf line)) = .ok s := by
      rwa [ofCorpusLine_eq_ok_iff, String.toList_ofList]
    rw [hbody] at hread
    rw [rowOf] at hbody
    simp only [parse, hbody, hread]
    rfl

end CorpusLine

/-! ### Corpora -/

/-- The rows of a block: its header, then those of its entries, in their order. Each entry has one
row, which `EntryRow` relates to it. -/
def EdgeBlock.HasRows (b : EdgeBlock) (rows : List (List Char)) : Prop :=
  ∃ entryRows, rows = headerRow b.signee :: entryRows ∧ List.Forall₂ EntryRow entryRows b.entries

/-- The number of the line that an error is about. An error of the stream itself is about no
line. -/
def ResolutionError.line? : ResolutionError → Option Nat
  | .structural line _ => some line
  | .malformed line _ => some line
  | .io _ _ => none

namespace Corpus

/-- The rows that are not empty. Empty ones may stand anywhere, also between the header of a block
and its entries. -/
def filled (rows : List (List Char)) : List (List Char) := rows.filter (· ≠ [])

/-- Rows that are those of some blocks, one block after the other. `parts` are the rows of the
single blocks. -/
def Spells (rows : List (List Char)) (bs : List EdgeBlock) : Prop :=
  ∃ parts, parts.flatten = rows ∧ List.Forall₂ EdgeBlock.HasRows bs parts

/-- Rows that make up a corpus: the first one is a header, what begins as a header is one, and all
others are those of certifications. Empty rows do not count. It is told row by row and does not
mention blocks, in contrast to `Spells`. -/
structure Grammatical (rows : List (List Char)) : Prop where
  /-- No certification stands before all headers. -/
  first : ∀ row, (filled rows).head? = some row → row.head? = some 'p'
  /-- A row that begins with `p` goes on with a key id. -/
  headers : ∀ row ∈ filled rows, row.head? = some 'p' →
    row.tail ≠ [] ∧ ∀ c ∈ row.tail, isHexDigit c = true
  /-- Whatever else is not empty is the row of a certification. -/
  entries : ∀ row ∈ filled rows, row.head? ≠ some 'p' → ∃ s, EntryRow row s

/-- A list that is related to one with a last member has a last member too, and the two are related.
Both readers below go through a corpus from its front, so inductions take off the last row. -/
theorem forall₂_concat_left_iff {α β : Type} {R : α → β → Prop} {as : List α} {a : α}
    {bs : List β} : List.Forall₂ R (as ++ [a]) bs ↔
      ∃ front b, bs = front ++ [b] ∧ List.Forall₂ R as front ∧ R a b := by
  constructor
  · intro h
    -- Along the first list, since the second one is not yet known to have a last member.
    induction as generalizing bs with
    | nil =>
      obtain ⟨b, _, hb, hnil, rfl⟩ := List.forall₂_cons_left_iff.1 h
      cases hnil
      exact ⟨[], b, rfl, .nil, hb⟩
    | cons c as ih =>
      obtain ⟨d, _, hd, hrest, rfl⟩ := List.forall₂_cons_left_iff.1 h
      obtain ⟨front, b, rfl, hfront, hb⟩ := ih hrest
      exact ⟨d :: front, b, rfl, .cons hd hfront, hb⟩
  · rintro ⟨front, b, rfl, hfront, hb⟩
    exact List.rel_append hfront (.cons hb .nil)

variable {rows : List (List Char)} {bs : List EdgeBlock} {row : List Char}

/-- No rows spell no blocks. The inductions over `Spells` start here. -/
theorem spells_nil : Spells [] [] := ⟨[], rfl, .nil⟩

/-- A further header begins a further block, which has no entries yet. It is what
`blocksFrom_header` does, said of the grammar. -/
theorem Spells.header (h : Spells rows bs) (k : KeyId) :
    Spells (rows ++ [headerRow k]) (bs ++ [⟨k, []⟩]) := by
  obtain ⟨parts, rfl, hparts⟩ := h
  refine ⟨parts ++ [[headerRow k]], by simp, forall₂_concat_left_iff.2 ⟨_, _, rfl, hparts, ?_⟩⟩
  exact ⟨[], rfl, .nil⟩

/-- A further certification belongs to the last block. Its counterpart for the reader is
`blocksFrom_entry`. -/
theorem Spells.entry {b : EdgeBlock} {s : Signature} (h : Spells rows (bs ++ [b]))
    (hrow : EntryRow row s) :
    Spells (rows ++ [row]) (bs ++ [{ b with entries := b.entries ++ [s] }]) := by
  obtain ⟨parts, rfl, hparts⟩ := h
  obtain ⟨front, part, rfl, hfront, entryRows, rfl, hentries⟩ := forall₂_concat_left_iff.1 hparts
  refine ⟨front ++ [headerRow b.signee :: (entryRows ++ [row])], by simp,
    forall₂_concat_left_iff.2 ⟨_, _, rfl, hfront, entryRows ++ [row], rfl, ?_⟩⟩
  exact List.rel_append hentries (.cons hrow .nil)

/-- The last row is the header of the last block, or that of its last entry. It is the inversion of
`Spells.header` and `Spells.entry`, so a corpus can be taken apart from its end. -/
theorem Spells.last (h : Spells (rows ++ [row]) bs) :
    (∃ k front, row = headerRow k ∧ bs = front ++ [⟨k, []⟩] ∧ Spells rows front) ∨
      ∃ b s front, EntryRow row s ∧ bs = front ++ [{ b with entries := b.entries ++ [s] }] ∧
        Spells rows (front ++ [b]) := by
  obtain ⟨parts, hflatten, hparts⟩ := h
  rcases List.eq_nil_or_concat' bs with rfl | ⟨front, ⟨k, es⟩, rfl⟩
  · cases hparts
    simp at hflatten
  obtain ⟨fronts, part, rfl, hfront, entryRows, rfl, hentries⟩ := forall₂_concat_left_iff.1 hparts
  rw [List.flatten_append, List.flatten_singleton] at hflatten
  -- The last block has no entry, and then its header comes last, or it has a last one.
  rcases List.eq_nil_or_concat' entryRows with rfl | ⟨entryFront, entryRow, rfl⟩
  · cases hentries
    obtain ⟨rfl, hrow⟩ := List.append_inj' hflatten rfl
    exact .inl ⟨k, front, (List.cons.inj hrow).1.symm, rfl, fronts, rfl, hfront⟩
  · obtain ⟨entries, s, rfl, hentries, hs⟩ := forall₂_concat_left_iff.1 hentries
    rw [← List.cons_append, ← List.append_assoc] at hflatten
    obtain ⟨rfl, hrow⟩ := List.append_inj' hflatten rfl
    rw [List.singleton_inj.1 hrow] at hs
    refine .inr ⟨⟨k, entries⟩, s, front, hs, rfl, fronts ++ [headerRow k :: entryFront],
      by simp, ?_⟩
    exact forall₂_concat_left_iff.2 ⟨_, _, rfl, hfront, entryFront, rfl, hentries⟩

/-! ### Corpora by their rows -/

/-- Empty rows are left out on both sides of a cut. Inductions from behind, with
`List.reverseRecOn`, take the last row off. -/
theorem filled_append (rows rows' : List (List Char)) :
    filled (rows ++ rows') = filled rows ++ filled rows' := List.filter_append ..

/-- A last row that is not empty counts. It then has to be explained by the grammar, as a header or
as an entry. -/
theorem filled_concat_of_ne_nil (rows : List (List Char)) (hrow : row ≠ []) :
    filled (rows ++ [row]) = filled rows ++ [row] := by
  rw [filled_append]
  simp [filled, hrow]

/-- A last row that is empty does not. The grammar has nothing to say of it, and neither has the
reader. -/
theorem filled_concat_nil (rows : List (List Char)) : filled (rows ++ [[]]) = filled rows := by
  simp [filled]

/-- The row of a certification begins with `s`, so it is no header. -/
theorem head?_entryRow {s : Signature} (h : EntryRow row s) : row.head? = some 's' := by
  cases h with
  | intro => rfl

/-- A row that begins as a header is one if the rest of it is a key id. The right side can be
decided by looking at the row. -/
theorem exists_eq_headerRow_iff : (∃ k, row = headerRow k) ↔
    row.head? = some 'p' ∧ row.tail ≠ [] ∧ ∀ c ∈ row.tail, isHexDigit c = true := by
  constructor
  · rintro ⟨k, rfl⟩
    exact ⟨rfl, k.wellFormed.1, List.all_eq_true.1 k.wellFormed.2⟩
  · rintro ⟨hhead, hne, hhex⟩
    obtain ⟨cs, rfl⟩ := List.head?_eq_some_iff.1 hhead
    refine ⟨⟨String.ofList cs, ?_⟩, ?_⟩
    · rw [String.toList_ofList]
      exact ⟨hne, List.all_eq_true.2 hhex⟩
    · rw [headerRow, String.toList_ofList]

/-- Without rows there are no blocks, since each block has a header. A certification in front of all
headers is excluded by it. -/
theorem Spells.eq_nil (h : Spells [] bs) : bs = [] := by
  obtain ⟨parts, hflatten, hparts⟩ := h
  cases hparts with
  | nil => rfl
  | cons hpart hrest =>
    obtain ⟨entryRows, rfl, -⟩ := hpart
    simp at hflatten

/-- Without blocks there are no rows. Its converse is `Spells.eq_nil`. -/
theorem Spells.rows_eq_nil (h : Spells rows []) : rows = [] := by
  obtain ⟨parts, rfl, hparts⟩ := h
  cases hparts
  rfl

/-- The rows that spell blocks are headers and entries, and a header comes first. The induction
takes off the last row, as `Spells.last` does. -/
theorem Spells.forms (h : Spells rows bs) :
    (∀ row ∈ rows, (∃ k, row = headerRow k) ∨ ∃ s, EntryRow row s) ∧
      ∀ row, rows.head? = some row → ∃ k, row = headerRow k := by
  induction rows using List.reverseRecOn generalizing bs with
  | nil => simp
  | append_singleton rows row ih =>
    -- The last row either begins a block or belongs to the last one; in both cases the others
    -- spell.
    have hlast : ∃ front, Spells rows front ∧
        ((∃ k, row = headerRow k) ∨ ∃ s, EntryRow row s) ∧
        (rows = [] → ∃ k, row = headerRow k) := by
      rcases h.last with ⟨k, front, hk, -, hfront⟩ | ⟨b, s, front, hs, -, hfront⟩
      · exact ⟨front, hfront, .inl ⟨k, hk⟩, fun _ => ⟨k, hk⟩⟩
      · refine ⟨_, hfront, .inr ⟨s, hs⟩, ?_⟩
        -- An entry alone would belong to no block.
        rintro rfl
        simpa using hfront.eq_nil
    obtain ⟨front, hfront, hrow, hfirst⟩ := hlast
    obtain ⟨hrows, hhead⟩ := ih hfront
    constructor
    · simp only [List.mem_append, List.mem_singleton]
      rintro other (hother | rfl)
      · exact hrows other hother
      · exact hrow
    · intro first hfirst'
      cases rows with
      | nil =>
        obtain rfl := Option.some.inj hfirst'
        exact hfirst rfl
      | cons => exact hhead first hfirst'

/-- Rows that spell blocks are grammatical, which is what `Spells.forms` says row by row. -/
theorem Spells.grammatical (h : Spells (filled rows) bs) : Grammatical rows := by
  obtain ⟨hrows, hhead⟩ := h.forms
  refine ⟨fun row hfirst => ?_, fun row hmem hp => ?_, fun row hmem hp => ?_⟩
  · exact (exists_eq_headerRow_iff.1 (hhead row hfirst)).1
  · rcases hrows row hmem with hheader | ⟨s, hs⟩
    · exact (exists_eq_headerRow_iff.1 hheader).2
    · rw [head?_entryRow hs] at hp
      cases hp
  · rcases hrows row hmem with ⟨k, rfl⟩ | hentry
    · exact absurd rfl hp
    · exact hentry

/-- What is grammatical is so without its last row. A reader that has not come to the end has
therefore seen nothing wrong. -/
theorem Grammatical.front (h : Grammatical (rows ++ [row])) : Grammatical rows := by
  have hmem : ∀ other ∈ filled rows, other ∈ filled (rows ++ [row]) := fun other hother => by
    rw [filled_append]
    exact List.mem_append_left _ hother
  refine ⟨fun first hfirst => h.first first ?_, fun other hother => h.headers other (hmem _ hother),
    fun other hother => h.entries other (hmem _ hother)⟩
  rw [filled_append, List.head?_append, hfirst]
  rfl

/-- A corpus is that of some blocks. The induction is from the end: the last row belongs to a block
that is there, or begins one. -/
theorem Grammatical.exists_spells (h : Grammatical rows) : ∃ bs, Spells (filled rows) bs := by
  induction rows using List.reverseRecOn with
  | nil => exact ⟨[], spells_nil⟩
  | append_singleton rows row ih =>
    obtain ⟨bs, hbs⟩ := ih h.front
    by_cases hrow : row = []
    · rw [hrow, filled_concat_nil]
      exact ⟨bs, hbs⟩
    have hmem : row ∈ filled (rows ++ [row]) := by
      rw [filled_concat_of_ne_nil rows hrow]
      exact List.mem_concat_self
    by_cases hp : row.head? = some 'p'
    · obtain ⟨k, rfl⟩ := exists_eq_headerRow_iff.2 ⟨hp, h.headers row hmem hp⟩
      rw [filled_concat_of_ne_nil rows hrow]
      exact ⟨_, hbs.header k⟩
    · obtain ⟨s, hs⟩ := h.entries row hmem hp
      rcases List.eq_nil_or_concat' bs with rfl | ⟨front, b, rfl⟩
      · -- There is no block yet, so the row is the first one and has to be a header.
        have hfirst : (filled (rows ++ [row])).head? = some row := by
          rw [filled_concat_of_ne_nil rows hrow, hbs.rows_eq_nil]
          rfl
        exact absurd (h.first row hfirst) hp
      · rw [filled_concat_of_ne_nil rows hrow]
        exact ⟨_, hbs.entry hs⟩

/-! ### Reading -/

section

variable {line : String} (stage : String) (n : Nat) (pending : Option EdgeBlock)
  (rest : List (Except IoError String))

/-- An empty row gives nothing, but it counts as a line. The count goes on, so errors behind it name
their lines as in the text. -/
theorem blocksFrom_blank (h : rowOf line = []) :
    blocksFrom stage n pending (.ok line :: rest) = blocksFrom stage (n + 1) pending rest := by
  simp only [blocksFrom, CorpusLine.parse_eq_blank_iff.2 h]

/-- A header hands out the block before it and opens one without entries. The block is handed out at
its end, not at its beginning, as its entries have to be known. -/
theorem blocksFrom_header {k : KeyId} (h : rowOf line = headerRow k) :
    blocksFrom stage n pending (.ok line :: rest)
      = pending.toList.map .ok ++ blocksFrom stage (n + 1) (some ⟨k, []⟩) rest := by
  cases pending <;> simp only [blocksFrom, CorpusLine.parse_eq_header_iff.2 h] <;> rfl

/-- A certification joins the block that is open. Without an open block it would be refused, by
`Misplacement.certificationBeforeHeader`. -/
theorem blocksFrom_entry {s : Signature} (b : EdgeBlock) (h : EntryRow (rowOf line) s) :
    blocksFrom stage n (some b) (.ok line :: rest)
      = blocksFrom stage (n + 1) (some { b with entries := b.entries ++ [s] }) rest := by
  simp only [blocksFrom, CorpusLine.parse_eq_certification_iff.2 h]

end

/-- A list is all of it but the last member, and that one behind. The reader has handed out the
former and holds the latter. -/
theorem dropLast_append_toList_getLast? (bs : List EdgeBlock) :
    bs.dropLast ++ bs.getLast?.toList = bs := by
  rcases List.eq_nil_or_concat' bs with rfl | ⟨_, _, rfl⟩ <;> simp

/-- What the reader has given behind some rows: all blocks that they spell but the last one, which
is held back. It is the invariant of a run, proved by induction from the end of the rows, and
`bs.getLast?` is the state of the reader. -/
theorem blocksFrom_of_spells {lines : List String} (stage : String)
    (h : Spells (filled (lines.map rowOf)) bs) (rest : List (Except IoError String)) :
    blocksFrom stage 0 none (lines.map .ok ++ rest)
      = bs.dropLast.map .ok ++ blocksFrom stage lines.length bs.getLast? rest := by
  induction lines using List.reverseRecOn generalizing bs rest with
  | nil =>
    obtain rfl := h.eq_nil
    rfl
  | append_singleton lines line ih =>
    rw [List.map_append, List.map_singleton, List.append_assoc, List.singleton_append,
      List.length_append, List.length_singleton]
    rw [List.map_append, List.map_singleton] at h
    by_cases hrow : rowOf line = []
    · rw [hrow, filled_concat_nil] at h
      rw [ih h, blocksFrom_blank _ _ _ _ hrow]
    rw [filled_concat_of_ne_nil _ hrow] at h
    -- A header hands out the block that was held; an entry goes into it.
    rcases h.last with ⟨k, front, hk, rfl, hfront⟩ | ⟨b, s, front, hs, rfl, hfront⟩
    · rw [ih hfront, blocksFrom_header _ _ _ _ hk, ← List.append_assoc, ← List.map_append,
        dropLast_append_toList_getLast?, List.dropLast_concat, List.getLast?_concat]
    · rw [ih hfront, List.getLast?_concat, blocksFrom_entry _ _ _ _ hs, List.dropLast_concat,
        List.dropLast_concat, List.getLast?_concat]

/-- A row that spoils a corpus is told by its number. The blocks before it have been given by then,
all but the one that is held. -/
theorem blocksFrom_of_not_grammatical {lines : List String} {line : String} (stage : String)
    (h : Spells (filled (lines.map rowOf)) bs)
    (hnot : ¬ Grammatical (lines.map rowOf ++ [rowOf line]))
    (rest : List (Except IoError String)) :
    ∃ e items, blocksFrom stage lines.length bs.getLast? (.ok line :: rest) = .error e :: items ∧
      e.line? = some (lines.length + 1) := by
  have hrow : rowOf line ≠ [] := by
    intro hnil
    rw [← filled_concat_nil, ← hnil] at h
    exact hnot h.grammatical
  have hfits : ∀ bs', ¬ Spells (filled (lines.map rowOf) ++ [rowOf line]) bs' := fun bs' hbs' =>
    hnot (by rw [← filled_concat_of_ne_nil _ hrow] at hbs'; exact hbs'.grammatical)
  cases hparse : CorpusLine.parse line with
  | error cause =>
    simp only [blocksFrom, hparse]
    exact ⟨_, _, rfl, rfl⟩
  | ok parsed =>
    cases parsed with
    | blank => exact absurd (CorpusLine.parse_eq_blank_iff.1 hparse) hrow
    | header k =>
      rw [CorpusLine.parse_eq_header_iff] at hparse
      exact absurd (hparse ▸ h.header k) (hfits _)
    | certification s =>
      rcases List.eq_nil_or_concat' bs with rfl | ⟨front, b, rfl⟩
      · -- There is no block to which the certification could belong.
        simp only [List.getLast?_nil, blocksFrom, hparse]
        exact ⟨_, _, rfl, rfl⟩
      · exact absurd (h.entry (CorpusLine.parse_eq_certification_iff.1 hparse)) (hfits _)

/-- Rows that are no corpus have a first one that spoils it: up to there they are grammatical, and
with it they are not. -/
theorem exists_first_not_grammatical (h : ¬ Grammatical rows) :
    ∃ n < rows.length, Grammatical (rows.take n) ∧ ¬ Grammatical (rows.take (n + 1)) := by
  induction rows using List.reverseRecOn with
  | nil =>
    have hnil : Spells (filled []) [] := spells_nil
    exact absurd hnil.grammatical h
  | append_singleton rows row ih =>
    -- If the rows before the last one are grammatical, it is the last one that spoils it.
    by_cases hfront : Grammatical rows
    · refine ⟨rows.length, by simp, ?_, ?_⟩
      · rwa [List.take_left]
      · rwa [List.take_of_length_le (by simp)]
    · obtain ⟨n, hn, hgood, hbad⟩ := ih hfront
      refine ⟨n, by simp; omega, ?_, ?_⟩
      · rwa [List.take_append_of_le_length (by omega)]
      · rwa [List.take_append_of_le_length (by omega)]

/-- The blocks of a corpus, or the first error on the way. It is what a reader gets that stops at an
error. -/
def collect (stage : String) (corpus : Source) : Except ResolutionError (List EdgeBlock) :=
  (blocks stage corpus).mapM id

/-- A corpus is collected if every item is a block, and then the blocks are the items. -/
theorem collect_eq_ok_iff {stage : String} {corpus : Source} :
    collect stage corpus = .ok bs ↔ blocks stage corpus = bs.map .ok := by
  rw [collect, except_mapM_eq_ok, List.map_id]

/-- The error is the first one among the items, whatever comes behind it. The blocks in front of the
error are given up, as `collect` returns one of the two. -/
theorem collect_eq_error {stage : String} {corpus : Source} {e : ResolutionError}
    {items : List (Except ResolutionError EdgeBlock)}
    (h : blocks stage corpus = bs.map .ok ++ .error e :: items) :
    collect stage corpus = .error e := by
  rw [collect, h]
  clear h
  induction bs with
  | nil => rfl
  | cons b bs ih =>
    rw [List.map_cons, List.cons_append, List.mapM_cons, ih]
    rfl

/-- The lines that are delivered of a text have the rows of the text, up to empty ones at the end.
Neither the rows that are filled nor the numbers of lines differ. -/
theorem exists_lines (text : String) : ∃ lines : List String,
    (Source.ofString text).textLines = lines.map .ok ∧
      filled (rowsOf text) = filled (lines.map rowOf) ∧
      ∀ n ≤ lines.length, (rowsOf text).take n = (lines.map rowOf).take n := by
  obtain ⟨lines, hlines, hrows⟩ := textLines_ofString text
  refine ⟨lines, hlines, ?_, fun n hn => ?_⟩
  · rcases hrows with h | h
    · rw [h]
    · rw [← h, filled_concat_nil]
  · rcases hrows with h | h
    · rw [h]
    · rw [← h, List.take_append_of_le_length (by simpa using hn)]

/-- Whether rows are a corpus depends on those that are not empty. `exists_lines` only gives rows up
to empty ones, and this is why that is enough. -/
theorem grammatical_congr {rows' : List (List Char)} (h : filled rows = filled rows') :
    Grammatical rows ↔ Grammatical rows' := by
  constructor
  · rintro ⟨hfirst, hheaders, hentries⟩
    exact ⟨h ▸ hfirst, h ▸ hheaders, h ▸ hentries⟩
  · rintro ⟨hfirst, hheaders, hentries⟩
    exact ⟨h ▸ hfirst, h ▸ hheaders, h ▸ hentries⟩

/-- What the reader makes of a text: it accepts the texts that are grammatical, gives the blocks
that they spell, and else stops at the first row that is wrong. -/
structure ReadByGrammar (stage text : String) : Prop where
  /-- The reader accepts a text if and only if its rows are a corpus. -/
  accepted_iff : (∃ bs, collect stage (.ofString text) = .ok bs) ↔ Grammatical (rowsOf text)
  /-- There is a block for each header, with the entries up to the next one. -/
  blocks_iff : ∀ bs, collect stage (.ofString text) = .ok bs ↔ Spells (filled (rowsOf text)) bs
  /-- The first line that spoils the corpus is refused by its number. Before that all blocks of the
  lines before it are given, except the one that no header has closed yet. -/
  refused : Grammatical (rowsOf text) ∨ ∃ n bs e items,
    Grammatical ((rowsOf text).take n) ∧ ¬ Grammatical ((rowsOf text).take (n + 1)) ∧
      Spells (filled ((rowsOf text).take n)) bs ∧
      blocks stage (.ofString text) = bs.dropLast.map .ok ++ .error e :: items ∧
      collect stage (.ofString text) = .error e ∧ e.line? = some (n + 1)

/-- A corpus is read as the blocks that its rows spell. The one that was held back comes at the end
of the text. -/
theorem blocks_of_spells {text : String} (stage : String) (h : Spells (filled (rowsOf text)) bs) :
    blocks stage (.ofString text) = bs.map .ok := by
  obtain ⟨lines, hlines, hfilled, -⟩ := exists_lines text
  rw [hfilled] at h
  have hread := blocksFrom_of_spells stage h []
  rw [List.append_nil] at hread
  rw [blocks, hlines, hread, blocksFrom, ← List.map_append, dropLast_append_toList_getLast?]

/-- A text that is no corpus is refused at the first row that spoils it, and its number is the one
of that row. -/
theorem exists_refused {text : String} (stage : String) (h : ¬ Grammatical (rowsOf text)) :
    ∃ n bs e items,
      Grammatical ((rowsOf text).take n) ∧ ¬ Grammatical ((rowsOf text).take (n + 1)) ∧
      Spells (filled ((rowsOf text).take n)) bs ∧
      blocks stage (.ofString text) = bs.dropLast.map .ok ++ .error e :: items ∧
      e.line? = some (n + 1) := by
  obtain ⟨lines, hlines, hfilled, htake⟩ := exists_lines text
  rw [grammatical_congr hfilled] at h
  obtain ⟨n, hn, hgood, hbad⟩ := exists_first_not_grammatical h
  rw [List.length_map] at hn
  rw [← htake n (by omega)] at hgood
  rw [← htake (n + 1) (by omega)] at hbad
  obtain ⟨bs, hbs⟩ := hgood.exists_spells
  -- The lines before the one that spoils the corpus, that line, and those behind it.
  have hcut : lines = lines.take n ++ lines[n] :: lines.drop (n + 1) := by
    rw [List.getElem_cons_drop, List.take_append_drop]
  have hlength : (lines.take n).length = n := by rw [List.length_take]; omega
  have hbs' : Spells (filled ((lines.take n).map rowOf)) bs := by
    rwa [List.map_take, ← htake n (by omega)]
  have hbad' : ¬ Grammatical ((lines.take n).map rowOf ++ [rowOf lines[n]]) := by
    rwa [← List.map_singleton, ← List.map_append, List.take_append_getElem, List.map_take,
      ← htake (n + 1) (by omega)]
  obtain ⟨e, items, hitems, he⟩ := blocksFrom_of_not_grammatical stage hbs' hbad'
    ((lines.drop (n + 1)).map .ok)
  rw [hlength] at he
  refine ⟨n, bs, e, items, hgood, hbad, hbs, ?_, he⟩
  rw [blocks, hlines, hcut, List.map_append, List.map_cons, blocksFrom_of_spells stage hbs', hitems]

/-- Every text is read by the grammar of corpora. There is no hypothesis: a text is any, and so is
the name of the stage. The three parts of `ReadByGrammar` follow from `blocks_of_spells` and
`exists_refused`. -/
theorem corpus_reader_grammar (stage text : String) : ReadByGrammar stage text := by
  have hspells : ∀ bs, Spells (filled (rowsOf text)) bs → collect stage (.ofString text) = .ok bs :=
    fun bs hbs => collect_eq_ok_iff.2 (blocks_of_spells stage hbs)
  have hgrammatical : ∀ bs, collect stage (.ofString text) = .ok bs →
      Grammatical (rowsOf text) := by
    intro bs hbs
    -- Were the rows no corpus, there would be an error, and nothing would be collected.
    by_contra hnot
    obtain ⟨n, bs', e, items, -, -, -, hitems, -⟩ := exists_refused stage hnot
    rw [collect_eq_error hitems] at hbs
    cases hbs
  constructor
  · constructor
    · rintro ⟨bs, hbs⟩
      exact hgrammatical bs hbs
    · intro h
      obtain ⟨bs, hbs⟩ := h.exists_spells
      exact ⟨bs, hspells bs hbs⟩
  · intro bs
    refine ⟨fun hbs => ?_, hspells bs⟩
    obtain ⟨bs', hbs'⟩ := (hgrammatical bs hbs).exists_spells
    rw [hspells bs' hbs'] at hbs
    rwa [← Except.ok.inj hbs]
  · rcases Classical.em (Grammatical (rowsOf text)) with h | h
    · exact .inl h
    · obtain ⟨n, bs, e, items, hgood, hbad, hbs, hitems, he⟩ := exists_refused stage h
      exact .inr ⟨n, bs, e, items, hgood, hbad, hbs, hitems, collect_eq_error hitems, he⟩

/-- The block of the second header is held back when its line is refused. -/
example : (blocks readingStage (.ofString (unlines ["pAA", "", "pBB", "sAA", "pCC"]))).take 2
    = [.ok ⟨.ofText "AA", []⟩, .error (.malformed 4 (.fieldCount .certification 1 8))] := by
  rw [Source.ofString_unlines]
  decide +kernel

end Corpus

end WebOfTrust
