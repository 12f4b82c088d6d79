import WebOfTrust.Proofs.CorpusGrammar

/-!
# `WebOfTrust.Proofs.CorpusAttribution`: whose certifications are read past errors

A reader that is asked on after an error goes on at the next line. A header that is refused leaves
the block before it open, so what stands below it is read into that block. The rows of a text
therefore fall into parts: each begins with a header that is accepted and reaches up to the next
one. A part gives one block, with all certifications in it, and before the first part nothing is
accepted.

So it is the last *accepted* header that decides. It is the last row that begins as a header, unless
a certification stands under a refused header and behind an accepted one. Such a certification is
given to a key that it need not have anything to do with.

- `Corpus.parts`, `Corpus.front_append_parts`: how rows fall into parts;
- `Corpus.givenBlocks_blocksFrom`: the blocks of a run, from any line on;
- `Corpus.blocks_past_errors`: the blocks of a text, its refused lines, and when no certification is
  misplaced;
- `Corpus.misplaced_under_refused_header`: one that is.
-/

set_option autoImplicit false

namespace WebOfTrust

open Text

namespace Corpus

variable {rows : List (List Char)} {row : List Char}

/-! ### Parts -/

/-- The row is a header that is accepted. A row that begins with `p` need not be one, and then it is
refused. -/
def IsHeader (row : List Char) : Prop := ∃ k, row = headerRow k

/-- Being a header is decided by looking at the row: it begins with `p`, and what follows is a
non-empty run of hexadecimal digits. `exists_eq_headerRow_iff` says that this is the same as
`IsHeader`, so that `front` and `parts` can be computed. -/
instance (row : List Char) : Decidable (IsHeader row) :=
  decidable_of_iff (row.head? = some 'p' ∧ row.tail ≠ [] ∧ row.tail.all isHexDigit = true) (by
    rw [List.all_eq_true, IsHeader, exists_eq_headerRow_iff])

/-- The certification of a row, if it is one. Whether it is accepted depends on what stands before
it. -/
def certification? (row : List Char) : Option Signature :=
  (Signature.ofCorpusLine (String.ofList row)).toOption

/-- A row has the certification that the grammar of `EntryRow` gives it. -/
theorem certification?_eq_some_iff {s : Signature} :
    certification? row = some s ↔ EntryRow row s := by
  have hread := @ofCorpusLine_eq_ok_iff (String.ofList row) s
  rw [String.toList_ofList] at hread
  rw [certification?, ← hread]
  cases Signature.ofCorpusLine (String.ofList row) <;> simp [Except.toOption]

/-- The two kinds of rows are told apart by their first letter. A certification begins with `s` by
`head?_entryRow`. -/
theorem not_isHeader_of_entryRow {s : Signature} (h : EntryRow row s) : ¬ IsHeader row := by
  rintro ⟨k, rfl⟩
  exact absurd (head?_entryRow h) (by simp [headerRow])

/-- The rows before the first header. No block is open where they stand. `parts` has all other rows,
and `front_append_parts` puts the two together. -/
def front (rows : List (List Char)) : List (List Char) := rows.takeWhile fun row => ¬ IsHeader row

/-- The parts that begin with a header each, and reach up to the next one. Together with `front`
they are all rows. -/
def parts : List (List Char) → List (List (List Char))
  | [] => []
  | row :: rows => if IsHeader row then (row :: front rows) :: parts rows else parts rows

/-- A header ends what stands before the first header. It is one of the two equations by which
inductions on rows unfold `front`. -/
theorem front_header (h : IsHeader row) (rows : List (List Char)) : front (row :: rows) = [] :=
  List.takeWhile_cons_of_neg (by simpa using h)

/-- A row that is no header belongs to what stands before the first one. The other equation of
`front`. -/
theorem front_of_not_isHeader (h : ¬ IsHeader row) (rows : List (List Char)) :
    front (row :: rows) = row :: front rows :=
  List.takeWhile_cons_of_pos (by simpa using h)

/-- Rows without a header have the front of what follows them behind them. The rows on the left are
those between two headers in `stand_under_header_iff`. -/
theorem front_append {rows : List (List Char)} (h : ∀ row ∈ rows, ¬ IsHeader row)
    (more : List (List Char)) : front (rows ++ more) = rows ++ front more :=
  List.takeWhile_append_of_pos (by simpa using h)

/-- No header stands before the first header. The proof is by induction, along the two equations of
`front`. -/
theorem not_isHeader_of_mem_front (h : row ∈ front rows) : ¬ IsHeader row := by
  simpa using List.all_eq_true.1 List.all_takeWhile row h

/-- A header begins a part, which has the rows up to the next header. It is the equation of `parts`
that makes it grow. -/
theorem parts_header (h : IsHeader row) (rows : List (List Char)) :
    parts (row :: rows) = (row :: front rows) :: parts rows := if_pos h

/-- Any other row begins no part; if it is not in the front, it is in the part before. -/
theorem parts_of_not_isHeader (h : ¬ IsHeader row) (rows : List (List Char)) :
    parts (row :: rows) = parts rows := if_neg h

/-- No row is lost, and none changes its place: the front and the parts, one behind the other, are
the rows. -/
theorem front_append_parts (rows : List (List Char)) :
    front rows ++ (parts rows).flatten = rows := by
  induction rows with
  | nil => rfl
  | cons row rows ih =>
    by_cases h : IsHeader row
    · rw [front_header h, parts_header h, List.nil_append, List.flatten_cons, List.cons_append, ih]
    · rw [front_of_not_isHeader h, parts_of_not_isHeader h, List.cons_append, ih]

/-- What stands first in a part is a header, and nothing else in it is. By this and
`mem_parts_of_header` the parts are told without their recursion. -/
theorem of_mem_parts {part : List (List Char)} (h : part ∈ parts rows) :
    ∃ row rest, part = row :: rest ∧ IsHeader row ∧ ∀ other ∈ rest, ¬ IsHeader other := by
  induction rows with
  | nil => cases h
  | cons row rows ih =>
    -- A header opens a part; any other row was taken by the part before it.
    by_cases hrow : IsHeader row
    · rw [parts_header hrow] at h
      rcases List.mem_cons.1 h with rfl | h
      · exact ⟨row, _, rfl, hrow, fun _ => not_isHeader_of_mem_front⟩
      · exact ih h
    · rw [parts_of_not_isHeader hrow] at h
      exact ih h

/-- Where a header stands, a part begins, and it reaches up to the next header. The place of the
header is given by the rows before it, which may hold further headers. -/
theorem mem_parts_of_header (h : IsHeader row) (before after : List (List Char)) :
    row :: front after ∈ parts (before ++ row :: after) := by
  induction before with
  | nil =>
    rw [List.nil_append, parts_header h]
    exact List.mem_cons_self
  | cons other before ih =>
    rw [List.cons_append, parts]
    split
    · exact List.mem_cons_of_mem _ ih
    · exact ih

/-! ### One run of the reader -/

/-- The blocks among what a reader gives, in their order. Errors in between are left out. A reader
that goes on past errors gives both, in one list of items. -/
def givenBlocks (items : List (Except ResolutionError EdgeBlock)) : List EdgeBlock :=
  items.filterMap Except.toOption

/-- The errors among what a reader gives, in their order. Together with `givenBlocks` they tell all
that was given. -/
def refusals (items : List (Except ResolutionError EdgeBlock)) : List ResolutionError :=
  items.filterMap fun | .error e => some e | .ok _ => none

end Corpus

open Corpus

/-- The block with the certifications of further rows. Rows that are none, refused headers among
them, add nothing. -/
def EdgeBlock.gather (b : EdgeBlock) (rows : List (List Char)) : EdgeBlock :=
  { b with entries := b.entries ++ rows.filterMap certification? }

/-- Rows can be gathered one by one, as the reader does. `List.filterMap` unfolds in the same way,
and `EdgeBlock.gather` is made of it. -/
theorem EdgeBlock.gather_cons (b : EdgeBlock) (row : List Char) (rows : List (List Char)) :
    (b.gather [row]).gather rows = b.gather (row :: rows) := by
  rw [gather, gather, gather, List.append_assoc, ← List.filterMap_append, List.singleton_append]

/-- The block has the certifications of a part, under its header: all of them, in their order, and
no others. -/
def EdgeBlock.Gathers (b : EdgeBlock) (part : List (List Char)) : Prop :=
  ∃ rest, part = headerRow b.signee :: rest ∧ b.entries = rest.filterMap certification?

namespace Corpus

variable {rows : List (List Char)} {row : List Char} {line : String}

/-- Whether a row is refused. A certification is, as long as no block is held that it could belong
to; empty rows and headers never are. -/
def isRefused (held : Bool) (row : List Char) : Bool :=
  row ≠ [] && !IsHeader row && !(held && (certification? row).isSome)

/-- The numbers of the rows with `p`, if `n` rows stand before them. Lines are counted from one. -/
def lineNumbersOf (p : List Char → Bool) (n : Nat) (rows : List (List Char)) : List Nat :=
  ((rows.zipIdx (n + 1)).filter fun r => p r.1).map Prod.snd

/-- The first row has the number `n + 1` and is counted if it has `p`. -/
theorem lineNumbersOf_cons (p : List Char → Bool) (n : Nat) (row : List Char)
    (rows : List (List Char)) : lineNumbersOf p n (row :: rows)
      = (if p row then [n + 1] else []) ++ lineNumbersOf p (n + 1) rows := by
  rw [lineNumbersOf, List.zipIdx_cons, List.filter_cons, lineNumbersOf]
  split <;> simp_all

/-- A header is accepted whether or not a block is held. So it never appears among the
`refusals`. -/
theorem isRefused_header (h : IsHeader row) (held : Bool) : isRefused held row = false := by
  simp [isRefused, h]

/-- What is neither empty nor a header nor a certification is refused everywhere. The condition is
that `certification?` gives nothing and no other kind of row matches. -/
theorem isRefused_of_none (hne : row ≠ []) (h : ¬ IsHeader row) (hnone : certification? row = none)
    (held : Bool) : isRefused held row = true := by
  simp [isRefused, hne, h, hnone]

/-- A certification is refused exactly where no block is held. It is what
`Misplacement.certificationBeforeHeader` stands for. -/
theorem isRefused_certification {s : Signature} (h : EntryRow row s) (held : Bool) :
    isRefused held row = !held := by
  have hne : row ≠ [] := by
    rintro rfl
    cases h
  simp [isRefused, hne, not_isHeader_of_entryRow h, certification?_eq_some_iff.2 h]

/-- A row without a certification leaves the held block as it is. Its own error goes to the
`refusals` and does not touch the block. -/
theorem map_gather_of_none (hnone : certification? row = none) (pending : Option EdgeBlock) :
    pending.map (·.gather [row]) = pending := by
  cases pending <;> simp [EdgeBlock.gather, hnone]

/-- A row that is no header belongs to the block that is held. What the reader tells at once is
nothing, or one error if `isRefused` says so. A refused header is a case of this, and that is why
the block stays open under it. -/
theorem blocksFrom_of_not_isHeader (stage : String) (n : Nat) (pending : Option EdgeBlock)
    (rest : List (Except IoError String)) (h : ¬ IsHeader (rowOf line)) :
    ∃ told : List ResolutionError, blocksFrom stage n pending (.ok line :: rest)
        = told.map .error ++ blocksFrom stage (n + 1) (pending.map (·.gather [rowOf line])) rest ∧
      told.map ResolutionError.line?
        = (if isRefused pending.isSome (rowOf line) then [n + 1] else []).map some := by
  cases hparse : CorpusLine.parse line with
  | error cause =>
    -- A row that is refused is neither blank nor a certification.
    have hne : rowOf line ≠ [] := by
      intro hnil
      rw [CorpusLine.parse_eq_blank_iff.2 hnil] at hparse
      cases hparse
    have hnone : certification? (rowOf line) = none := by
      rw [Option.eq_none_iff_forall_ne_some]
      intro s hs
      rw [CorpusLine.parse_eq_certification_iff.2 (certification?_eq_some_iff.1 hs)] at hparse
      cases hparse
    refine ⟨[.malformed (n + 1) cause], ?_, ?_⟩
    · rw [map_gather_of_none hnone]
      simp only [blocksFrom, hparse]
      rfl
    · rw [isRefused_of_none hne h hnone]
      rfl
  | ok parsed =>
    cases parsed with
    | blank =>
      have hnil := CorpusLine.parse_eq_blank_iff.1 hparse
      refine ⟨[], ?_, ?_⟩
      · rw [blocksFrom_blank _ _ _ _ hnil, hnil, map_gather_of_none (by decide)]
        rfl
      · rw [hnil]
        rfl
    | header k => exact absurd ⟨k, CorpusLine.parse_eq_header_iff.1 hparse⟩ h
    | certification s =>
      have hrow := CorpusLine.parse_eq_certification_iff.1 hparse
      rw [isRefused_certification hrow]
      cases pending with
      -- Without a block there is nothing that a certification could belong to.
      | none =>
        refine ⟨[.structural (n + 1) .certificationBeforeHeader], ?_, rfl⟩
        simp only [blocksFrom, hparse]
        rfl
      | some b =>
        refine ⟨[], ?_, rfl⟩
        rw [blocksFrom_entry _ _ _ _ hrow, Option.map_some, EdgeBlock.gather, List.filterMap_cons,
          certification?_eq_some_iff.2 hrow]
        rfl

/-- The blocks of items come in the order of the items. Used where the reader gives items for one
row and then those for the rest. -/
theorem givenBlocks_append (items more : List (Except ResolutionError EdgeBlock)) :
    givenBlocks (items ++ more) = givenBlocks items ++ givenBlocks more := List.filterMap_append

/-- So do the errors. The two lemmas split one list of items in the same way. -/
theorem refusals_append (items more : List (Except ResolutionError EdgeBlock)) :
    refusals (items ++ more) = refusals items ++ refusals more := List.filterMap_append

/-- Errors alone give no block. A refused row is such a list, with a single error in it. -/
@[simp] theorem givenBlocks_map_error (told : List ResolutionError) :
    givenBlocks (told.map .error) = [] := by
  simp [givenBlocks, Except.toOption]

/-- Errors alone are the errors. `blocksFrom` gives an error for a row that `isRefused` speaks
of. -/
@[simp] theorem refusals_map_error (told : List ResolutionError) :
    refusals (told.map .error) = told := by
  simp [refusals]

/-- Blocks alone are the blocks. A header gives the block that was held, and the end of the text
gives the last one. -/
@[simp] theorem givenBlocks_map_ok (bs : List EdgeBlock) : givenBlocks (bs.map .ok) = bs := by
  rw [givenBlocks, List.filterMap_map]
  exact List.filterMap_some

/-- Blocks alone give no error. So headers and ends leave `refusals` as they are. -/
@[simp] theorem refusals_map_ok (bs : List EdgeBlock) : refusals (bs.map .ok) = [] := by
  simp [refusals]

/-- From any line on, the block that is held gets the certifications before the first header, and
each part gives a block. The induction is on the lines, for any block that is held. -/
theorem givenBlocks_blocksFrom (stage : String) (n : Nat) (pending : Option EdgeBlock)
    (lines : List String) : ∃ bs, List.Forall₂ EdgeBlock.Gathers bs (parts (lines.map rowOf)) ∧
      givenBlocks (blocksFrom stage n pending (lines.map .ok))
        = (pending.map (·.gather (front (lines.map rowOf)))).toList ++ bs := by
  induction lines generalizing n pending with
  | nil =>
    refine ⟨[], .nil, ?_⟩
    cases pending <;> simp [blocksFrom, givenBlocks, front, Except.toOption, EdgeBlock.gather]
  | cons line lines ih =>
    rw [List.map_cons, List.map_cons]
    by_cases h : IsHeader (rowOf line)
    · -- The held block is complete, and a new one is held.
      obtain ⟨k, hk⟩ := h
      obtain ⟨bs, hbs, hgiven⟩ := ih (n + 1) (some ⟨k, []⟩)
      refine ⟨⟨k, (front (lines.map rowOf)).filterMap certification?⟩ :: bs, ?_, ?_⟩
      · rw [parts_header ⟨k, hk⟩, hk]
        exact .cons ⟨_, rfl, rfl⟩ hbs
      · rw [front_header ⟨k, hk⟩, blocksFrom_header _ _ _ _ hk, givenBlocks_append,
          givenBlocks_map_ok, hgiven]
        cases pending <;> simp [EdgeBlock.gather]
    · -- The row goes into the held block or is refused, and in both cases no block is given.
      obtain ⟨told, hstep, -⟩ := blocksFrom_of_not_isHeader stage n pending (lines.map .ok) h
      obtain ⟨bs, hbs, hgiven⟩ := ih (n + 1) (pending.map (·.gather [rowOf line]))
      refine ⟨bs, ?_, ?_⟩
      · rw [parts_of_not_isHeader h]
        exact hbs
      · rw [front_of_not_isHeader h, hstep, givenBlocks_append, givenBlocks_map_error, hgiven,
          List.nil_append, Option.map_map]
        simp only [Function.comp_def, EdgeBlock.gather_cons]

/-- A block that is held stays so up to the next header, and from there on another one is. So each
row is refused by what it is alone. -/
theorem refusals_of_held (stage : String) (n : Nat) (b : EdgeBlock) (lines : List String) :
    (refusals (blocksFrom stage n (some b) (lines.map .ok))).map ResolutionError.line?
      = (lineNumbersOf (isRefused true) n (lines.map rowOf)).map some := by
  induction lines generalizing n b with
  | nil => rfl
  | cons line lines ih =>
    rw [List.map_cons, List.map_cons, lineNumbersOf_cons, List.map_append]
    by_cases h : IsHeader (rowOf line)
    · -- The header closes the block and opens one, so another block is held.
      obtain ⟨k, hk⟩ := h
      rw [blocksFrom_header _ _ _ _ hk, refusals_append, refusals_map_ok, List.nil_append, ih,
        isRefused_header ⟨k, hk⟩]
      rfl
    · obtain ⟨told, hstep, htold⟩ :=
        blocksFrom_of_not_isHeader stage n (some b) (lines.map .ok) h
      rw [hstep, refusals_append, refusals_map_error, List.map_append, htold, Option.map_some, ih]
      rfl

/-- Before the first header everything is refused that is not empty, and from there on
`refusals_of_held` applies. -/
theorem refusals_of_none (stage : String) (n : Nat) (lines : List String) :
    (refusals (blocksFrom stage n none (lines.map .ok))).map ResolutionError.line?
      = (lineNumbersOf (isRefused false) n (front (lines.map rowOf))
          ++ lineNumbersOf (isRefused true) (n + (front (lines.map rowOf)).length)
            (parts (lines.map rowOf)).flatten).map some := by
  induction lines generalizing n with
  | nil => rfl
  | cons line lines ih =>
    rw [List.map_cons, List.map_cons]
    by_cases h : IsHeader (rowOf line)
    · -- This is the first header: `front` ends here.
      obtain ⟨k, hk⟩ := h
      rw [blocksFrom_header _ _ _ _ hk, refusals_append, refusals_map_ok, List.nil_append,
        refusals_of_held, front_header ⟨k, hk⟩, parts_header ⟨k, hk⟩, List.flatten_cons,
        List.cons_append, front_append_parts, lineNumbersOf_cons, isRefused_header ⟨k, hk⟩]
      rfl
    · obtain ⟨told, hstep, htold⟩ := blocksFrom_of_not_isHeader stage n none (lines.map .ok) h
      rw [hstep, refusals_append, refusals_map_error, List.map_append, htold, Option.map_none, ih,
        front_of_not_isHeader h, parts_of_not_isHeader h, lineNumbersOf_cons, List.length_cons,
        Nat.add_right_comm n, Nat.add_assoc n, List.append_assoc]
      exact List.map_append.symm

/-! ### Certifications under refused headers -/

/-- Every certification of the part stands under its header: no other row that begins as a header
comes between. Such a row would be one that is refused, since the part has one header only. -/
def StandUnderHeader (part : List (List Char)) : Prop :=
  ∀ header before row after, part = header :: (before ++ row :: after) →
    (∃ s, EntryRow row s) → ∀ other ∈ before, other.head? ≠ some 'p'

/-- Some certification stands under a refused header, behind an accepted one. It is told of the
rows, without parts and blocks. -/
def Misplaced (rows : List (List Char)) : Prop :=
  ∃ before refused between row after, rows = before ++ refused :: (between ++ row :: after) ∧
    (∃ header ∈ before, IsHeader header) ∧ refused.head? = some 'p' ∧ ¬ IsHeader refused ∧
    (∀ other ∈ between, other.head? ≠ some 'p') ∧ ∃ s, EntryRow row s

/-- A list with a member of some kind has a last one: what stands behind it is of another kind. -/
theorem exists_last {α : Type} {p : α → Prop} {l : List α} (h : ∃ x ∈ l, p x) :
    ∃ before x after, l = before ++ x :: after ∧ p x ∧ ∀ y ∈ after, ¬ p y := by
  -- From behind, as the last one is looked for.
  induction l using List.reverseRecOn with
  | nil => simp at h
  | append_singleton l y ih =>
    by_cases hy : p y
    · exact ⟨l, y, [], rfl, hy, by simp⟩
    · obtain ⟨x, hx, hp⟩ := h
      have hmem : x ∈ l := by
        rcases List.mem_append.1 hx with hx | hx
        · exact hx
        · rw [List.mem_singleton.1 hx] at hp
          exact absurd hp hy
      obtain ⟨before, z, after, rfl, hz, hafter⟩ := ih ⟨x, hmem, hp⟩
      refine ⟨before, z, after ++ [y], by simp, hz, fun w hw => ?_⟩
      rcases List.mem_append.1 hw with hw | hw
      · exact hafter w hw
      · rwa [List.mem_singleton.1 hw]

/-- A part is found in the rows as it is, with its rows side by side. `of_mem_parts` needs the place
of a part, not only its rows. -/
theorem exists_append_part {part : List (List Char)} (h : part ∈ parts rows) :
    ∃ before after, rows = before ++ part ++ after := by
  obtain ⟨l, r, hparts⟩ := List.append_of_mem h
  refine ⟨front rows ++ l.flatten, r.flatten, ?_⟩
  conv => lhs; rw [← front_append_parts rows, hparts]
  simp

/-- Parts divide the certifications as rows that begin as headers do, unless one is misplaced. Both
directions look for the last header before a certification: the last accepted one, and the last one
at all. -/
theorem stand_under_header_iff :
    (∀ part ∈ parts rows, StandUnderHeader part) ↔ ¬ Misplaced rows := by
  constructor
  · rintro hparts
      ⟨before, refused, between, row, after, rfl, hbefore, hp, hrefused, hbetween, s, hs⟩
    -- The certification is in the part of the last header that is accepted before the refused one.
    obtain ⟨l, header, r, rfl, hheader, hr⟩ := exists_last hbefore
    have hinner : ∀ other ∈ r ++ refused :: (between ++ [row]), ¬ IsHeader other := by
      intro other hother
      simp only [List.mem_append, List.mem_cons, List.not_mem_nil, or_false] at hother
      rcases hother with hother | rfl | hother | rfl
      · exact hr other hother
      · exact hrefused
      · exact fun h => hbetween other hother (exists_eq_headerRow_iff.1 h).1
      · exact not_isHeader_of_entryRow hs
    have hpart := mem_parts_of_header hheader l (r ++ refused :: (between ++ row :: after))
    have hrest : r ++ refused :: (between ++ row :: after)
        = (r ++ refused :: (between ++ [row])) ++ after := by simp
    rw [hrest, front_append hinner] at hpart
    rw [← hrest] at hpart
    refine hparts _ (by simpa using hpart) header (r ++ refused :: between) row (front after)
      (by simp) ⟨s, hs⟩ refused (by simp) hp
  · intro hnot part hpart header before row after hdivided hrow other hother hp
    obtain ⟨l, refused, r, rfl, hp, hr⟩ :=
      exists_last (p := fun other => other.head? = some 'p') ⟨other, hother, hp⟩
    obtain ⟨head, rest, hhead, hheader, hrest⟩ := of_mem_parts hpart
    obtain ⟨first, last, hrows⟩ := exists_append_part hpart
    rw [hdivided, List.cons.injEq] at hhead
    obtain ⟨rfl, rfl⟩ := hhead
    refine hnot ⟨first ++ header :: l, refused, r, row, after ++ last, ?_,
      ⟨header, by simp, hheader⟩, hp, hrest refused (by simp), hr, hrow⟩
    rw [hrows, hdivided]
    simp

/-! ### Texts -/

/-- An empty row behind the last line changes nothing, because no line stands behind it whose number
could. -/
theorem blocksFrom_concat_blank (stage : String) (n : Nat) (pending : Option EdgeBlock)
    (lines : List String) (h : rowOf line = []) :
    blocksFrom stage n pending ((lines ++ [line]).map .ok)
      = blocksFrom stage n pending (lines.map .ok) := by
  induction lines generalizing n pending with
  | nil => exact blocksFrom_blank stage n pending [] h
  | cons first lines ih => simp only [List.cons_append, List.map_cons, blocksFrom, ih]

/-- The blocks of a text are those of lines that have its rows. The delivered lines may lack an
empty row at the end, which `blocksFrom_concat_blank` puts back. -/
theorem exists_lines_of_rows (stage text : String) : ∃ lines : List String,
    blocks stage (.ofString text) = blocksFrom stage 0 none (lines.map .ok) ∧
      lines.map rowOf = rowsOf text := by
  obtain ⟨lines, hlines, hrows⟩ := textLines_ofString text
  rw [blocks, hlines]
  rcases hrows with hrows | hrows
  · exact ⟨lines, rfl, hrows⟩
  · refine ⟨lines ++ [""], (blocksFrom_concat_blank stage 0 none lines rfl).symm, ?_⟩
    rw [List.map_append, ← hrows]
    rfl

/-- What a reader makes of a text that it reads to its end, whatever errors it meets. -/
structure ReadPastErrors (stage text : String) : Prop where
  /-- A part gives a block, and nothing else does. -/
  given : List.Forall₂ EdgeBlock.Gathers (givenBlocks (blocks stage (.ofString text)))
    (parts (rowsOf text))
  /-- Each row that is refused gives an error with its number, and no other row does. -/
  refused : (refusals (blocks stage (.ofString text))).map ResolutionError.line?
    = (lineNumbersOf (isRefused false) 0 (front (rowsOf text))
        ++ lineNumbersOf (isRefused true) (front (rowsOf text)).length
          (parts (rowsOf text)).flatten).map some
  /-- When the last row that begins as a header is that of the block to which a certification is
  given. -/
  attributed_iff : (∀ part ∈ parts (rowsOf text), StandUnderHeader part) ↔ ¬ Misplaced (rowsOf text)

/-- Every text is read so, with whatever errors. In particular the blocks are known exactly also
where the reader has gone on after a refused header. -/
theorem blocks_past_errors (stage text : String) : ReadPastErrors stage text := by
  obtain ⟨lines, hblocks, hrows⟩ := exists_lines_of_rows stage text
  refine ⟨?_, ?_, stand_under_header_iff⟩
  · obtain ⟨bs, hbs, hgiven⟩ := givenBlocks_blocksFrom stage 0 none lines
    rw [hblocks, hgiven, ← hrows]
    exact hbs
  · rw [hblocks, refusals_of_none, hrows, Nat.zero_add]

/-- A certification whose own header is refused is given to the key before it. The header is refused
because `XX` is no id, and the block of `AA` is still held when the certification is read. -/
theorem misplaced_under_refused_header :
    let own := "pXX"
    let entry := "sBB;2001-01-01;;;0;17;2;4"
    let text := unlines ["pAA", own, entry]
    rowsOf text = [headerRow (.ofText "AA"), own.toList, entry.toList, []] ∧
      ¬ IsHeader own.toList ∧ ∃ s, EntryRow entry.toList s ∧
        givenBlocks (blocks readingStage (.ofString text)) = [⟨.ofText "AA", [s]⟩] := by
  intro own entry text
  have hrows : rowsOf text = [headerRow (.ofText "AA"), own.toList, entry.toList, []] := by
    rw [rowsOf_unlines (by decide +kernel)]
    decide +kernel
  have hread : (certification? entry.toList).isSome ∧
      givenBlocks (blocks readingStage (.ofString text))
        = [⟨.ofText "AA", [entry.toList].filterMap certification?⟩] := by
    rw [Source.ofString_unlines]
    decide +kernel
  obtain ⟨hsome, hgiven⟩ := hread
  obtain ⟨s, hs⟩ := Option.isSome_iff_exists.1 hsome
  refine ⟨hrows, by decide +kernel, s, certification?_eq_some_iff.1 hs, ?_⟩
  rw [hgiven, List.filterMap_cons, hs]
  rfl

end Corpus

end WebOfTrust
