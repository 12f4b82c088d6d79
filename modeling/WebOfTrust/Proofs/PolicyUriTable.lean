import WebOfTrust.PolicyUriTable
import WebOfTrust.Proofs.Dump.Escape
import WebOfTrust.Proofs.StatusTable
import WebOfTrust.Proofs.Table
import WebOfTrust.Proofs.Text.ByteOrder

/-!
# `WebOfTrust.Proofs.PolicyUriTable`: the policy table is read as it was written

Whoever signs a key chooses the URIs in this table, so they may be any texts: with semicolons, with
line ends, with backslashes, or empty. A line is taken apart at its first semicolon, which is the
one behind the issuer since no id has one, and its URI is written without control characters, so
that the line has no end but its own.

A table holds a set of URIs for each issuer, and two tables with the same pairs could differ in
issuers with an empty set. None of the operations leaves such a set. That is what makes the table
that is read equal to the one that was written.

- `PolicyUri.parse_render`: a line is read back;
- `PolicyUriTable.Reachable.wellFormed`: no operation leaves an empty set;
- `PolicyUriTable.WellFormed.ext`: a table without empty sets is its pairs;
- `PolicyUriTable.WellFormed.read_text`: a table is read back;
- `PolicyUriTable.WellFormed.holds_text`: what its text is, line by line.
-/

set_option autoImplicit false

namespace WebOfTrust

open Text

/-! ### Lines -/

namespace PolicyUri

/-- The order of the lines of a table: by issuers, and for one issuer by URIs, byte by byte. It is
strict, so no pair stands in a table twice. -/
def Before (p q : PolicyUri) : Prop :=
  p.issuer.bytes < q.issuer.bytes ∨ p.issuer = q.issuer ∧ bytes p.uri < bytes q.uri

/-- A line is the id, a semicolon, and the escaped URI. An id has no semicolon, so the first one in
the line is this one, whatever the URI has. -/
theorem toList_render (p : PolicyUri) :
    p.render.toList = p.issuer.text.toList ++ ';' :: (Dump.escapeLine p.uri).toList := by
  simp [render]

/-- A line has no control characters, whatever the URI is, because `Dump.escapeLine` has replaced
them. -/
theorem printable_of_mem_render {p : PolicyUri} {c : Char} (h : c ∈ p.render.toList) :
    0x20 ≤ c.toNat := by
  rw [toList_render] at h
  rcases List.mem_append.1 h with h | h
  · exact Nat.le_of_lt
      (printable_of_isHexDigit (List.all_eq_true.1 p.issuer.wellFormed.2 c h)).1
  · rcases List.mem_cons.1 h with rfl | h
    · decide
    · exact (Dump.printable_of_mem_escapeLine h).1

/-- So it is one line of text: without a line feed, and without a carriage return at its end. -/
theorem isLine_render (p : PolicyUri) : IsLine p.render :=
  ⟨fun h => absurd (printable_of_mem_render h) (by decide),
    fun h => absurd (printable_of_mem_render (List.mem_of_getLast? h)) (by decide)⟩

/-- A line begins with the digits of an id, so it is not blank and not passed over. -/
theorem trim_render_ne_nil (p : PolicyUri) : trim p.render.toList ≠ [] := by
  obtain ⟨c, cs, hid⟩ := List.exists_cons_of_ne_nil p.issuer.wellFormed.1
  have hdigit : isHexDigit c = true :=
    List.all_eq_true.1 p.issuer.wellFormed.2 c (hid ▸ List.mem_cons_self)
  rw [toList_render, hid, List.cons_append]
  exact trim_cons_ne_nil (isBlank_of_isHexDigit hdigit) _

/-- A line is read back, with any URI, also with an empty one or one with semicolons. -/
theorem parse_render (p : PolicyUri) : parse p.render = .ok p := by
  have hid : ';' ∉ p.issuer.text.toList := p.issuer.not_mem_text (by decide)
  simp only [parse, toList_render, splitFirst_append hid, String.ofList_toList, KeyId.parse_text,
    except_mapError_ok, except_bind_ok, Dump.unescape_escapeLine]
  rfl

end PolicyUri

namespace PolicyUriTable

/-! ### Tables without empty sets -/

/-- No issuer has an empty set of URIs. A table could hold one, but would not come back from its
text with it. -/
def WellFormed (t : PolicyUriTable) : Prop :=
  ∀ issuer uris, t.urisOf issuer = some uris → uris.isEmpty = false

/-- Tables that come about by the operations: by adding pairs, by dropping issuers, and by reading.
A table of the program is one of these. -/
inductive Reachable : PolicyUriTable → Prop
  | empty : Reachable ∅
  | add {t : PolicyUriTable} (p : PolicyUri) (h : Reachable t) : Reachable (t.add p)
  | retainIssuers {t : PolicyUriTable} (keep : KeySet KeyId) (h : Reachable t) :
    Reachable (t.retainIssuers keep)
  | read {source : Source} {t : PolicyUriTable} (h : read source = .ok t) : Reachable t

variable {t : PolicyUriTable}

/-- After an addition the set of its issuer has one more URI, and the sets of others are as they
were. -/
theorem urisOf_add (t : PolicyUriTable) (p : PolicyUri) (issuer : KeyId) :
    (t.add p).urisOf issuer =
      if issuer = p.issuer then some (((t.urisOf p.issuer).getD ∅).add p.uri)
      else t.urisOf issuer :=
  Table.find?_insert t.byIssuer p.issuer issuer _

/-- An issuer that is kept has the set that it had, and any other has none. It is the lemma from
which those about `declares` and `WellFormed` follow. -/
theorem urisOf_retainIssuers (t : PolicyUriTable) (keep : KeySet KeyId) (issuer : KeyId) :
    (t.retainIssuers keep).urisOf issuer =
      if issuer ∈ keep then t.urisOf issuer else none :=
  Table.find?_filterKeys keep.contains t.byIssuer issuer

/-- Whether a pair is in the table, where the set of its issuer is known: it is if the set has its
URI. -/
theorem declares_iff_of_urisOf {issuer : KeyId} {uris : KeySet String}
    (h : t.urisOf issuer = some uris) (uri : String) :
    t.declares ⟨issuer, uri⟩ = true ↔ uri ∈ uris := by
  rw [declares, h]
  rfl

/-- A pair in the table is in the set of its issuer. It opens `declares` into two look-ups. -/
theorem exists_uris_of_declares {p : PolicyUri} (h : t.declares p = true) :
    ∃ uris, t.urisOf p.issuer = some uris ∧ p.uri ∈ uris := by
  cases huris : t.urisOf p.issuer with
  | none =>
    rw [declares, huris] at h
    cases h
  | some uris => exact ⟨uris, rfl, (declares_iff_of_urisOf huris p.uri).1 h⟩

/-- The pairs after an addition are those before and the one that was added, whether or not it was
there already. -/
theorem declares_add {p q : PolicyUri} :
    (t.add p).declares q = true ↔ q = p ∨ t.declares q = true := by
  have hmem : ∀ (s : KeySet String) (uri : String), s.contains uri = true ↔ uri ∈ s :=
    fun _ _ => Iff.rfl
  obtain ⟨i, u⟩ := p
  obtain ⟨j, v⟩ := q
  simp only [declares, urisOf_add, hmem, PolicyUri.mk.injEq]
  -- Another issuer keeps its set.
  by_cases hi : j = i
  · subst hi
    simp only [if_true, Option.getD_some, KeySet.mem_add, true_and]
  · rw [if_neg hi]
    simp only [hi, false_and, false_or]

/-- The pairs that are kept are those of the issuers that are kept. The theorem about written tables
states it as one of its parts. -/
theorem declares_retainIssuers {keep : KeySet KeyId} {p : PolicyUri} :
    (t.retainIssuers keep).declares p = true ↔ p.issuer ∈ keep ∧ t.declares p = true := by
  rw [declares, urisOf_retainIssuers]
  by_cases hk : p.issuer ∈ keep
  · rw [if_pos hk]
    exact (and_iff_right hk).symm
  · rw [if_neg hk]
    exact iff_of_false (Table.not_mem_empty p.uri) fun h => hk h.1

/-- The empty table has no pairs. A run over a dump starts from the empty table. -/
theorem not_declares_empty (p : PolicyUri) : (∅ : PolicyUriTable).declares p = false := rfl

/-- The empty table has no set at all, so it has no empty one. It is the first case of
`Reachable.wellFormed`. -/
theorem wellFormed_empty : WellFormed ∅ := by
  intro issuer uris huris
  cases huris

/-- An addition leaves no empty set, because it puts something into one. `KeySet.add` never gives an
empty set. -/
theorem WellFormed.add (h : t.WellFormed) (p : PolicyUri) : (t.add p).WellFormed := by
  intro issuer uris huris
  rw [urisOf_add] at huris
  split at huris
  · -- The set of this issuer has the URI that was added.
    have hmem : p.uri ∈ uris := Option.some.inj huris ▸ KeySet.mem_add.2 (.inl rfl)
    exact Table.isEmpty_eq_false_iff.2 ⟨(), Table.mem_values_iff.2 ⟨p.uri, by
      obtain ⟨⟨⟩, hfind⟩ := Option.isSome_iff_exists.1 hmem
      exact hfind⟩⟩
  · exact h issuer uris huris

/-- To drop issuers leaves no empty set, because whole sets are dropped. A set is kept as it is or
goes with its issuer. -/
theorem WellFormed.retainIssuers (h : t.WellFormed) (keep : KeySet KeyId) :
    (t.retainIssuers keep).WellFormed := by
  intro issuer uris huris
  rw [urisOf_retainIssuers] at huris
  split at huris
  · exact h issuer uris huris
  · cases huris

/-- A table that is read is added to line by line, so the induction is on the lines and uses
`WellFormed.add`. -/
theorem WellFormed.readFrom {t' : PolicyUriTable} {count : Nat}
    {items : List (Except IoError String)} (h : t.WellFormed)
    (hread : t.readFrom count items = .ok t') : t'.WellFormed := by
  fun_induction PolicyUriTable.readFrom t count items with
  | case1 => exact Except.ok.inj hread ▸ h
  | case2 => cases hread
  | case3 _ _ _ _ _ ih => exact ih h hread
  | case4 _ _ _ _ _ p _ ih => exact ih (h.add p) hread
  | case5 => cases hread

/-- No operation leaves an empty set, by one lemma for each of them. So `WellFormed` is no condition
on the tables of a pass. -/
theorem Reachable.wellFormed (h : t.Reachable) : t.WellFormed := by
  induction h with
  | empty => exact wellFormed_empty
  | add p _ ih => exact ih.add p
  | retainIssuers keep _ ih => exact ih.retainIssuers keep
  | read h => exact wellFormed_empty.readFrom h

/-! ### Pairs -/

/-- The pairs that are listed are those that are in the table. `pairs` goes through issuers and, for
each, through its URIs. -/
theorem mem_pairs_iff {p : PolicyUri} : p ∈ t.pairs ↔ t.declares p = true := by
  simp only [pairs, List.mem_flatMap, List.mem_map, Prod.exists, Table.mem_entries_iff,
    Table.mem_keys_iff]
  constructor
  · rintro ⟨issuer, uris, huris, uri, huri, rfl⟩
    exact (declares_iff_of_urisOf huris uri).2 huri
  · intro h
    obtain ⟨uris, huris, huri⟩ := exists_uris_of_declares h
    exact ⟨p.issuer, uris, huris, p.uri, huri, rfl⟩

/-- As many pairs are listed as are counted. `PolicyUriTable.size` adds up the sizes of the sets. -/
theorem length_pairs (t : PolicyUriTable) : t.pairs.length = t.size := by
  simp [pairs, size, ← List.sum_eq_foldr, Table.values, Table.keys, Table.size,
    List.length_flatMap, List.map_map, Function.comp_def]

/-- The pairs are listed in their order, each once. Sets and the table itself are in the order of
`compare`, which `bytes_lt_of_compare` turns into that of bytes. -/
theorem pairwise_pairs (t : PolicyUriTable) : t.pairs.Pairwise PolicyUri.Before := by
  rw [pairs, List.pairwise_flatMap]
  constructor
  · rintro ⟨issuer, uris⟩ -
    rw [List.pairwise_map, Table.keys, List.pairwise_map]
    exact uris.ascending.imp fun hlt => .inr ⟨rfl, bytes_lt_of_compare hlt⟩
  · refine t.byIssuer.ascending.imp fun {e e'} hlt p hp q hq => .inl ?_
    obtain ⟨_, -, rfl⟩ := List.mem_map.1 hp
    obtain ⟨_, -, rfl⟩ := List.mem_map.1 hq
    exact KeyId.bytes_lt_of_compare hlt

/-- A set that is not empty has a member. `WellFormed` says it of every set in the table. -/
theorem WellFormed.exists_mem (h : t.WellFormed) {issuer : KeyId} {uris : KeySet String}
    (huris : t.urisOf issuer = some uris) : ∃ uri, uri ∈ uris := by
  obtain ⟨v, hv⟩ := Table.isEmpty_eq_false_iff.1 (h issuer uris huris)
  obtain ⟨uri, huri⟩ := Table.mem_values_iff.1 hv
  exact ⟨uri, Table.mem_iff.2 (Option.isSome_iff_exists.2 ⟨v, huri⟩)⟩

/-- Without empty sets, there is an issuer only if there is a pair. With an empty set, `isEmpty` and
`size` would disagree. -/
theorem WellFormed.isEmpty_iff (h : t.WellFormed) : t.isEmpty = true ↔ t.size = 0 := by
  rw [← length_pairs, List.length_eq_zero_iff]
  constructor
  · intro hempty
    rw [pairs, List.isEmpty_iff.1 hempty]
    rfl
  · intro hpairs
    cases hempty : t.isEmpty with
    | true => rfl
    | false =>
      -- An issuer in the table has a URI, so there is a pair.
      obtain ⟨uris, hmem⟩ := Table.isEmpty_eq_false_iff.1 hempty
      obtain ⟨issuer, huris⟩ := Table.mem_values_iff.1 hmem
      obtain ⟨uri, huri⟩ := h.exists_mem huris
      have hpair : (⟨issuer, uri⟩ : PolicyUri) ∈ t.pairs :=
        mem_pairs_iff.2 ((declares_iff_of_urisOf huris uri).2 huri)
      rw [hpairs] at hpair
      cases hpair

/-- Of two tables with the same pairs, the one has the sets that the other one has. An empty set
would show in the one and not in the other. -/
theorem WellFormed.urisOf_of_declares {s : PolicyUriTable} (hs : s.WellFormed)
    (h : ∀ p, s.declares p = true ↔ t.declares p = true) {issuer : KeyId} {uris : KeySet String}
    (huris : s.urisOf issuer = some uris) : t.urisOf issuer = some uris := by
  obtain ⟨uri, huri⟩ := hs.exists_mem huris
  obtain ⟨uris', huris', -⟩ :=
    exists_uris_of_declares ((h _).1 ((declares_iff_of_urisOf huris uri).2 huri))
  have heq : uris' = uris := KeySet.ext_mem fun k => by
    rw [← declares_iff_of_urisOf huris, ← declares_iff_of_urisOf huris', h]
  exact heq ▸ huris'

/-- A table without empty sets is its pairs: two with the same pairs are equal. Tables are compared
by this wherever they were built in different orders. -/
theorem WellFormed.ext {s : PolicyUriTable} (hs : s.WellFormed) (ht : t.WellFormed)
    (h : ∀ p, s.declares p = true ↔ t.declares p = true) : s = t := by
  have hfind : s.byIssuer = t.byIssuer := Table.ext_find? fun issuer => Option.ext fun uris =>
    ⟨hs.urisOf_of_declares h, ht.urisOf_of_declares fun p => (h p).symm⟩
  cases s
  cases t
  exact congrArg mk hfind

/-! ### Many pairs -/

/-- After many additions the pairs are those before and all that were added. The order of the
additions does not appear on the right. -/
theorem declares_foldl_add {ps : List PolicyUri} {p : PolicyUri} :
    (ps.foldl add t).declares p = true ↔ p ∈ ps ∨ t.declares p = true := by
  induction ps generalizing t with
  | nil => simp
  | cons q ps ih =>
    rw [List.foldl_cons, ih, declares_add, List.mem_cons, or_assoc, or_left_comm]

/-- Many additions are operations one after the other. So a table that is read is `Reachable`,
too. -/
theorem Reachable.foldl_add (h : t.Reachable) (ps : List PolicyUri) :
    (ps.foldl PolicyUriTable.add t).Reachable := by
  induction ps generalizing t with
  | nil => exact h
  | cons p ps ih => exact ih (h.add p)

/-- A table is the one to which its pairs add up, beginning with the empty one. This is what reading
a table does. -/
theorem WellFormed.foldl_pairs (h : t.WellFormed) :
    t.pairs.foldl PolicyUriTable.add ∅ = t := by
  refine (Reachable.empty.foldl_add t.pairs).wellFormed.ext h fun p => ?_
  rw [declares_foldl_add, mem_pairs_iff, not_declares_empty]
  simp

/-! ### Texts -/

/-- The text of a table: its pairs, one a line, in their order. `write` produces it in pieces, by
`write_eq`. -/
def text (t : PolicyUriTable) : String := unlines (t.pairs.map PolicyUri.render)

/-- The pieces in which a table is written make up its text. It is `PolicyUri.join_pieces` for each
pair. -/
theorem join_pieces (t : PolicyUriTable) : String.join t.pieces = t.text := by
  rw [pieces, text]
  induction t.pairs with
  | nil => rfl
  | cons p ps ih => simp [PolicyUri.join_pieces, ih]

/-- A table is written as its text, if the sink takes everything. Pieces are written one by one, and
a sink with a bound may stop in between. -/
theorem write_eq {out : Sink} (h : out.capacity = none) (t : PolicyUriTable) :
    t.write out = .ok { out with text := out.text ++ t.text } := by
  rw [write, text]
  induction t.pairs generalizing out with
  | nil => simp [pure, Except.pure]
  | cons p ps ih =>
    -- Without a bound no line is refused.
    have hwrite : out.writeLine p.render
        = .ok { out with text := out.text ++ (p.render ++ "\n") } := by
      rw [Sink.writeLine, Sink.write, h]
    have ih := @ih { out with text := out.text ++ (p.render ++ "\n") } h
    rw [List.foldlM_cons, hwrite, except_bind_ok, ih]
    simp [String.append_assoc]

/-- The lines of the text are those of the pairs, without any condition on the URIs.
`Dump.escapeLine` leaves no line feed in a URI. -/
theorem textLines_text (t : PolicyUriTable) :
    (Source.ofString t.text).textLines = (t.pairs.map PolicyUri.render).map .ok := by
  apply textLines_unlines
  intro l hl
  obtain ⟨p, -, rfl⟩ := List.mem_map.1 hl
  exact p.isLine_render

/-- The lines of pairs add them to the table, in the order of the lines. It uses
`PolicyUri.parse_render` for each line, and the induction is on the pairs. -/
theorem readFrom_render (t : PolicyUriTable) (count : Nat) (ps : List PolicyUri) :
    t.readFrom count ((ps.map PolicyUri.render).map .ok) = .ok (ps.foldl add t) := by
  induction ps generalizing t count with
  | nil => rfl
  | cons p ps ih =>
    simp only [List.map_cons, readFrom, if_neg p.trim_render_ne_nil, p.parse_render, ih,
      List.foldl_cons]

/-- A table is read back, by `readFrom_render` and `WellFormed.foldl_pairs`. -/
theorem WellFormed.read_text (h : t.WellFormed) : read (.ofString t.text) = .ok t := by
  rw [read, textLines_text, readFrom_render, h.foldl_pairs]

/-- `text` is the table `t`: what is in the one is in the other, in order, and reading the one gives
the other. -/
structure Holds (text : String) (t : PolicyUriTable) : Prop where
  /-- The text has a line for each pair. -/
  written : text = unlines (t.pairs.map PolicyUri.render)
  /-- A reader of lines gets these, and no others. -/
  lines : (Source.ofString text).textLines = (t.pairs.map PolicyUri.render).map .ok
  /-- A reader of tables gets `t`. -/
  read : read (.ofString text) = .ok t
  /-- The pairs listed are those in the table. -/
  pairs : ∀ p, p ∈ t.pairs ↔ t.declares p = true
  /-- They are in the order of bytes, and no pair comes twice. -/
  ordered : t.pairs.Pairwise PolicyUri.Before
  /-- There are as many lines as the table counts pairs. -/
  size : (Source.ofString text).textLines.length = t.size

/-- The text of a table without empty sets holds the table. Without `WellFormed`, an issuer with an
empty set would be lost. -/
theorem WellFormed.holds_text (h : t.WellFormed) :
    Holds t.text t where
  written := rfl
  lines := t.textLines_text
  read := h.read_text
  pairs := fun _ => mem_pairs_iff
  ordered := t.pairwise_pairs
  size := by
    rw [textLines_text, List.length_map, List.length_map, length_pairs]

end PolicyUriTable

end WebOfTrust
