import WebOfTrust.Corpus
import WebOfTrust.Proofs.StatusTable

/-!
# `WebOfTrust.Proofs.Corpus`: the edge corpus is read as it was written

The first pass writes blocks, the second one reads them, leaves some certifications out and writes
blocks again. As in the key-status table, fields are written without escaping. In contrast to it,
one thing does not survive: all unknown levels have one code.

- `Signature.ofCorpusLine_corpusLine`: a writable certification is read back, up to its level;
- `Signature.writable_of_ofCorpusLine`: a certification that is read is writable;
- `Corpus.blocks_render`: a corpus is read back block by block;
- `Corpus.exists_line_of_mem_blocksFrom`: the reader makes no certification up.
-/

set_option autoImplicit false

namespace WebOfTrust

open Text

namespace Signature

/-! ### Lines of certifications -/

/-- What makes the line of a certification come back: its algorithms are known under their numbers,
and its texts have no semicolon. The level is left out, since an unknown one does not come back. -/
structure Writable (s : Signature) : Prop where
  algorithm : PublicKeyAlgorithm.ofByte s.algorithm.toByte = s.algorithm
  hash : HashAlgorithm.ofByte s.hash.toByte = s.hash
  date : ';' ∉ s.date.toList
  expires : ';' ∉ s.expires.toList
  flags : ';' ∉ s.flags.toList

/-- The texts of a certification are on one line of text. A single line is read without this, but a
corpus is taken apart at its line feeds. -/
structure OnOneLine (s : Signature) : Prop where
  date : '\n' ∉ s.date.toList
  expires : '\n' ∉ s.expires.toList
  flags : '\n' ∉ s.flags.toList

/-- What is left of a certification once it has been written: an unknown level is one under the code
of all of them. Everything else comes back, if the certification is `Writable`. -/
def reread (s : Signature) : Signature :=
  { s with level := .ofByte s.level.code }

/-- The code of a level is kept by writing and reading, whichever level it is. So a level that has
come back once comes back from then on. -/
theorem code_ofByte_code (level : CertificationLevel) :
    (CertificationLevel.ofByte level.code).code = level.code := by
  cases level <;> rfl

/-- Who has issued a certification is not changed by writing it. Blocks are compared by their
issuers, before and behind the second pass. -/
@[simp] theorem issuer_reread (s : Signature) : s.reread.issuer = s.issuer := rfl

/-- Written again, a certification that was read back gives the same line. That is why passes can be
repeated, although `reread` is not the identity. -/
theorem corpusLine_reread (s : Signature) : s.reread.corpusLine = s.corpusLine := by
  simp [corpusLine, corpusFields, reread, code_ofByte_code]

/-- Only the three texts can hold a semicolon. The other fields of `corpusFields` are an id and
numbers. -/
theorem separator_free_corpusFields_iff (s : Signature) :
    (∀ f ∈ s.corpusFields, ';' ∉ f.toList) ↔
      ';' ∉ s.date.toList ∧ ';' ∉ s.expires.toList ∧ ';' ∉ s.flags.toList := by
  have hid : ';' ∉ s.issuer.text.toList := s.issuer.not_mem_text (by decide)
  have hnum : ∀ n : Nat, ';' ∉ (toString n).toList := fun n => not_mem_toString (by decide)
  simp only [corpusFields, List.mem_cons, List.not_mem_nil, or_false, forall_eq_or_imp,
    forall_eq]
  constructor
  · rintro ⟨-, hd, he, hf, -⟩
    exact ⟨hd, he, hf⟩
  · rintro ⟨hd, he, hf⟩
    exact ⟨hid, hd, he, hf, hnum _, hnum _, hnum _, hnum _⟩

/-- A line begins with the letter `s`, by which the reader knows that it is a certification. -/
theorem toList_corpusLine (s : Signature) :
    s.corpusLine.toList = 's' :: (ofFields ';' s.corpusFields).toList := by
  simp [corpusLine]

/-- A line ends with the version of the signature, so with a digit. Nothing is trimmed from it, and
it does not end with a carriage return. -/
theorem getLast?_corpusLine (s : Signature) :
    ∃ c, s.corpusLine.toList.getLast? = some c ∧ c.isDigit = true := by
  have hne : s.corpusFields.dropLast ≠ [] := by simp [corpusFields]
  obtain ⟨c, hc, hdigit⟩ := getLast?_ofFields_number ';' hne s.version.toNat
  refine ⟨c, ?_, hdigit⟩
  rw [toList_corpusLine, List.getLast?_cons,
    show s.corpusFields = s.corpusFields.dropLast ++ [toString s.version.toNat] from rfl, hc]
  rfl

/-- No blank at the end of a line is there to be dropped. The last character is a digit by
`getLast?_corpusLine`. -/
theorem trimEnd_corpusLine (s : Signature) : trimEnd s.corpusLine.toList = s.corpusLine.toList := by
  obtain ⟨c, hc, hdigit⟩ := s.getLast?_corpusLine
  exact trimEnd_eq_self hc (isBlank_of_isDigit hdigit)

/-- The line of a certification is one line of text, as long as its texts are. Its other fields are
ids and numbers, and `separator` is a semicolon. -/
theorem isLine_corpusLine {s : Signature} (h : s.OnOneLine) : IsLine s.corpusLine := by
  constructor
  · rw [toList_corpusLine]
    intro hmem
    rcases List.mem_cons.1 hmem with hmem | hmem
    · cases hmem
    rcases mem_ofFields hmem with hmem | ⟨f, hf, hmem⟩
    · cases hmem
    -- A line feed would be in one of the fields, and four of them are numbers.
    have hid : '\n' ∉ s.issuer.text.toList := s.issuer.not_mem_text (by decide)
    have hnum : ∀ n : Nat, '\n' ∉ (toString n).toList := fun n => not_mem_toString (by decide)
    simp only [corpusFields, List.mem_cons, List.not_mem_nil, or_false] at hf
    rcases hf with rfl | rfl | rfl | rfl | rfl | rfl | rfl | rfl
    · exact hid hmem
    · exact h.date hmem
    · exact h.expires hmem
    · exact h.flags hmem
    · exact hnum _ hmem
    · exact hnum _ hmem
    · exact hnum _ hmem
    · exact hnum _ hmem
  · obtain ⟨c, hlast, hdigit⟩ := s.getLast?_corpusLine
    rw [hlast]
    intro hc
    rw [Option.some.inj hc] at hdigit
    exact absurd hdigit (by decide)

/-- A writable certification is read back, up to its level. Without semicolons in the texts the
reader finds the eight fields that were written. -/
theorem ofCorpusLine_corpusLine {s : Signature} (h : s.Writable) :
    ofCorpusLine s.corpusLine = .ok s.reread := by
  -- None of the eight fields has a semicolon, so the line is cut where it was joined.
  have hfields : (splitOn ';' (ofFields ';' s.corpusFields).toList).map String.ofList
      = s.corpusFields :=
    splitOn_ofFields (by simp [corpusFields])
      (s.separator_free_corpusFields_iff.2 ⟨h.date, h.expires, h.flags⟩)
  have hbyte : ∀ (i : Nat) (b : UInt8), certificationByte i (toString b.toNat) = .ok b := by
    intro i b
    rw [certificationByte, readByte_toString]
  simp only [ofCorpusLine, toList_corpusLine, hfields]
  simp only [corpusFields, bind, Except.bind, Functor.map, Except.map, hbyte, KeyId.parse_text,
    except_mapError_ok, h.algorithm, h.hash]
  rfl

/-- A certification of which the reader counts eight fields has no semicolon in its texts. What the
fields are read as does not matter for that. -/
theorem separator_free_of_ofCorpusLine {s s' : Signature}
    (h : ofCorpusLine s.corpusLine = .ok s') :
    ';' ∉ s.date.toList ∧ ';' ∉ s.expires.toList ∧ ';' ∉ s.flags.toList := by
  rw [← separator_free_corpusFields_iff, ← length_splitOn_ofFields_iff (by simp [corpusFields])]
  simp only [ofCorpusLine, toList_corpusLine] at h
  split at h
  · next hfields =>
    have hlength := congrArg List.length hfields
    rw [List.length_map] at hlength
    exact hlength
  · cases h

/-- A certification that is read is writable, and its texts are parts of its line. The second part
carries over whatever the characters of a line are known to lack. -/
theorem writable_of_ofCorpusLine {line : String} {s : Signature} (h : ofCorpusLine line = .ok s) :
    s.Writable ∧ ∀ f ∈ [s.date, s.expires, s.flags], ∀ c ∈ f.toList, c ∈ line.toList := by
  simp only [ofCorpusLine] at h
  split at h
  · next body hbody =>
    split at h
    · next issuer date expires flags level algorithm hash version hfields =>
      simp only [except_bind_eq_ok, except_map_eq_ok, except_pure_eq_ok] at h
      obtain ⟨_, -, _, -, _, ⟨a, -, rfl⟩, _, ⟨b, -, rfl⟩, _, -, rfl⟩ := h
      -- The fields come from between the semicolons of the line.
      have field : ∀ f ∈ [issuer, date, expires, flags, level, algorithm, hash, version],
          ';' ∉ f.toList ∧ ∀ c ∈ f.toList, c ∈ line.toList := by
        intro f hf
        rw [← hfields] at hf
        obtain ⟨hsep, hmem⟩ := field_of_splitOn hf
        exact ⟨hsep, fun c hc => hbody ▸ List.mem_cons_of_mem _ (hmem c hc)⟩
      refine ⟨⟨?_, ?_, ?_, ?_, ?_⟩, ?_⟩
      · rw [PublicKeyAlgorithm.toByte_ofByte]
      · rw [HashAlgorithm.toByte_ofByte]
      · exact (field date (by simp)).1
      · exact (field expires (by simp)).1
      · exact (field flags (by simp)).1
      · intro f hf
        refine (field f ?_).2
        simp only [List.mem_cons, List.not_mem_nil, or_false] at hf
        rcases hf with rfl | rfl | rfl <;> simp
    · cases h
  · cases h

/-- A certification that is read from one line of text has its texts on one line. It combines the
second part of `writable_of_ofCorpusLine` with the fact that a delivered line has no line feed. -/
theorem onOneLine_of_ofCorpusLine {line : String} {s : Signature}
    (h : ofCorpusLine line = .ok s) (hline : '\n' ∉ line.toList) : s.OnOneLine := by
  obtain ⟨-, hmem⟩ := writable_of_ofCorpusLine h
  exact ⟨fun hn => hline (hmem s.date (by simp) _ hn),
    fun hn => hline (hmem s.expires (by simp) _ hn),
    fun hn => hline (hmem s.flags (by simp) _ hn)⟩

end Signature

/-! ### Lines of a corpus -/

namespace CorpusLine

/-- The text of a header: the letter `p` and the id of the signee. -/
def headerText (signee : KeyId) : String := "p" ++ signee.text

/-- A header begins with the letter `p`, by which the reader knows it. -/
theorem toList_headerText (signee : KeyId) :
    (headerText signee).toList = 'p' :: signee.text.toList := by
  simp [headerText]

/-- A key id ends with a hexadecimal digit, which is no blank and ends no line. So `trimEnd` leaves
a header alone, and so does `dropLineEnd`. -/
theorem getLast?_headerText (signee : KeyId) :
    ∃ c, (headerText signee).toList.getLast? = some c ∧ isHexDigit c = true := by
  have hne := signee.wellFormed.1
  refine ⟨signee.text.toList.getLast hne, ?_,
    List.all_eq_true.1 signee.wellFormed.2 _ (List.getLast_mem hne)⟩
  rw [toList_headerText, List.getLast?_cons, List.getLast?_eq_some_getLast hne]
  rfl

/-- A header is read back, whatever its id is. There is nothing in a `KeyId` that `KeyId.parse`
would refuse. -/
theorem parse_headerText (signee : KeyId) : parse (headerText signee) = .ok (.header signee) := by
  obtain ⟨c, hc, hdigit⟩ := getLast?_headerText signee
  have htrim : trimEnd (headerText signee).toList = 'p' :: signee.text.toList := by
    rw [trimEnd_eq_self hc (isBlank_of_isHexDigit hdigit), toList_headerText]
  simp [parse, htrim, KeyId.parse_text, except_mapError_ok, Functor.map, Except.map]

/-- A header is one line of text, because a key id has hexadecimal digits only. With
`isLine_corpusLine`, every line that `EdgeBlock.textLines` lists is one. -/
theorem isLine_headerText (signee : KeyId) : IsLine (headerText signee) := by
  constructor
  · -- There is no line feed among hexadecimal digits.
    rw [toList_headerText]
    intro h
    rcases List.mem_cons.1 h with h | h
    · cases h
    · exact signee.not_mem_text (by decide) h
  · -- The last character is a digit, and so no carriage return.
    obtain ⟨c, hlast, hdigit⟩ := getLast?_headerText signee
    rw [hlast]
    intro hc
    rw [Option.some.inj hc] at hdigit
    exact absurd hdigit (by decide)

/-- The line of a certification is read as one, or refused as one. `CorpusLine.parse` decides by the
first letter, and leaves the rest to `Signature.ofCorpusLine`. -/
theorem parse_corpusLine (s : Signature) :
    parse s.corpusLine = .certification <$> Signature.ofCorpusLine s.corpusLine := by
  rw [parse, s.trimEnd_corpusLine, s.toList_corpusLine]
  simp only
  rw [← s.toList_corpusLine, String.ofList_toList]

/-- A line that is read as a certification is one, but for blanks at its end. It is the converse of
`parse_corpusLine`, up to `trimEnd`. -/
theorem certification_of_parse {text : String} {s : Signature}
    (h : parse text = .ok (.certification s)) :
    Signature.ofCorpusLine (String.ofList (trimEnd text.toList)) = .ok s := by
  simp only [parse] at h
  split at h
  · cases h
  · obtain ⟨_, -, h⟩ := except_map_eq_ok.1 h
    cases h
  · obtain ⟨s', hs, h⟩ := except_map_eq_ok.1 h
    cases h
    exact hs
  · cases h

/-- What is known of a certification that was read from its own line is known of one in a corpus. -/
theorem writable_of_parse {text : String} {s : Signature}
    (h : parse text = .ok (.certification s)) :
    s.Writable ∧ ('\n' ∉ text.toList → s.OnOneLine) := by
  have hread := certification_of_parse h
  refine ⟨(Signature.writable_of_ofCorpusLine hread).1, fun hn => ?_⟩
  apply Signature.onOneLine_of_ofCorpusLine hread
  rw [String.toList_ofList]
  exact fun hmem => hn (mem_of_mem_trimEndWhere hmem)

end CorpusLine

/-! ### Blocks -/

namespace EdgeBlock

/-- A block as it comes back: the same signee, and each certification as it comes back. The final
corpus is stated in terms of it until `Passed.reread_blocks` shows that it changes nothing there. -/
def reread (b : EdgeBlock) : EdgeBlock :=
  { b with entries := b.entries.map Signature.reread }

/-- The lines of a block, as the reader of a corpus gets them one by one. `EdgeBlock.render` joins
them with line feeds, by `render_eq`. -/
def textLines (b : EdgeBlock) : List String :=
  CorpusLine.headerText b.signee :: b.entries.map Signature.corpusLine

/-- A block is rendered as its lines are written, each with a line feed. Writers produce the text in
pieces; lemmas about reading start from lines. -/
theorem render_eq (b : EdgeBlock) : b.render = unlines b.textLines := by
  simp [render, textLines, CorpusLine.headerText, unlines, String.append_assoc, List.map_map,
    Function.comp_def]

/-- A block that has come back is rendered as it was, by `Signature.corpusLine_reread`. -/
theorem render_reread (b : EdgeBlock) : b.reread.render = b.render := by
  simp [render, reread, List.map_map, Function.comp_def, Signature.corpusLine_reread]

/-- What makes a block come back: each of its certifications does, and is on one line. `OnOneLine`
is needed here, unlike for a single line, because a corpus is split at line feeds first. -/
def Writable (b : EdgeBlock) : Prop :=
  ∀ s ∈ b.entries, s.Writable ∧ s.OnOneLine

/-- A block that has come back can be written again. Its levels have codes in any case, so
`Signature.Writable` does not mention them. -/
theorem Writable.reread {b : EdgeBlock} (h : b.Writable) : b.reread.Writable := by
  intro s hs
  obtain ⟨t, ht, rfl⟩ := List.mem_map.1 hs
  obtain ⟨hwritable, hline⟩ := h t ht
  exact ⟨⟨hwritable.algorithm, hwritable.hash, hwritable.date, hwritable.expires,
    hwritable.flags⟩, ⟨hline.date, hline.expires, hline.flags⟩⟩

end EdgeBlock

namespace Corpus

/-- Blocks one behind the other are the lines of all of them. `Source.ofString` of this text is what
`textLines_render` is about. -/
theorem join_render (bs : List EdgeBlock) :
    String.join (bs.map EdgeBlock.render) = unlines (bs.flatMap EdgeBlock.textLines) := by
  induction bs with
  | nil => rfl
  | cons b bs ih => simp [unlines_append, EdgeBlock.render_eq, ih]

/-- The certifications of a block are gathered one by one. The induction is on them, and the block
that is pending grows with each step. -/
theorem blocksFrom_entries (stage : String) (count : Nat) (b : EdgeBlock) (es : List Signature)
    (rest : List (Except IoError String)) (h : ∀ s ∈ es, s.Writable) :
    blocksFrom stage count (some b) ((es.map Signature.corpusLine).map .ok ++ rest)
      = blocksFrom stage (count + es.length)
          (some { b with entries := b.entries ++ es.map Signature.reread }) rest := by
  induction es generalizing count b with
  | nil => simp
  | cons s es ih =>
    have hs := h s List.mem_cons_self
    have ih := ih (count + 1) { b with entries := b.entries ++ [s.reread] } fun t ht =>
      h t (List.mem_cons_of_mem _ ht)
    simp only [List.map_cons, List.cons_append, blocksFrom, CorpusLine.parse_corpusLine,
      Signature.ofCorpusLine_corpusLine hs, Functor.map, Except.map, ih, List.length_cons]
    simp [Nat.add_assoc, Nat.add_comm 1]

/-- Blocks are read back behind the one that is open. Each header closes the block before it, and
the end of the text closes the last one. -/
theorem blocksFrom_textLines (stage : String) (count : Nat) (pending : Option EdgeBlock)
    (bs : List EdgeBlock) (h : ∀ b ∈ bs, b.Writable) :
    blocksFrom stage count pending ((bs.flatMap EdgeBlock.textLines).map .ok)
      = (pending.toList ++ bs.map EdgeBlock.reread).map .ok := by
  induction bs generalizing count pending with
  | nil => simp [blocksFrom]
  | cons b bs ih =>
    have hb : ∀ s ∈ b.entries, s.Writable := fun s hs => (h b List.mem_cons_self s hs).1
    have ih := ih (count + 1 + b.entries.length) (some b.reread) fun b' hb' =>
      h b' (List.mem_cons_of_mem _ hb')
    -- Behind the header, the block of `b` is open and still empty.
    have hopen : blocksFrom stage (count + 1) (some ⟨b.signee, []⟩)
        ((b.entries.map Signature.corpusLine ++ bs.flatMap EdgeBlock.textLines).map .ok)
        = (b.reread :: bs.map EdgeBlock.reread).map .ok := by
      rw [List.map_append, blocksFrom_entries _ _ _ _ _ hb]
      simpa [EdgeBlock.reread] using ih
    simp only [List.flatMap_cons, EdgeBlock.textLines, List.cons_append, List.map_cons]
    cases pending with
    | none =>
      simp only [blocksFrom, CorpusLine.parse_headerText]
      exact hopen
    | some p =>
      simp only [blocksFrom, CorpusLine.parse_headerText]
      rw [hopen]
      rfl

/-- A corpus is delivered as it was written, since headers and lines of certifications are lines of
text. -/
theorem textLines_render {bs : List EdgeBlock} (h : ∀ b ∈ bs, ∀ s ∈ b.entries, s.OnOneLine) :
    (Source.ofString (String.join (bs.map EdgeBlock.render))).textLines
      = (bs.flatMap EdgeBlock.textLines).map .ok := by
  rw [join_render]
  apply textLines_unlines
  intro t ht
  obtain ⟨b, hb, ht⟩ := List.mem_flatMap.1 ht
  rcases List.mem_cons.1 ht with rfl | ht
  · exact CorpusLine.isLine_headerText b.signee
  · obtain ⟨s, hs, rfl⟩ := List.mem_map.1 ht
    exact Signature.isLine_corpusLine (h b hb s hs)

/-- A corpus is read back block by block. All headers come back, also those without certifications.
The level of each entry may have changed, which is why `EdgeBlock.reread` is on the right. -/
theorem blocks_render (stage : String) {bs : List EdgeBlock} (h : ∀ b ∈ bs, b.Writable) :
    blocks stage (Source.ofString (String.join (bs.map EdgeBlock.render)))
      = (bs.map EdgeBlock.reread).map .ok := by
  rw [blocks, textLines_render fun b hb s hs => (h b hb s hs).2,
    blocksFrom_textLines stage 0 none bs h]
  rfl

/-! ### What a reader that succeeds has read -/

/-- A corpus that is read without error is delivered whole, and each of its lines is accepted. The
induction is on what is delivered, for any block that is open. -/
theorem texts_of_blocksFrom {stage : String} {count : Nat} {pending : Option EdgeBlock}
    {items : List (Except IoError String)}
    (h : ∀ e, .error e ∉ blocksFrom stage count pending items) :
    ∃ texts : List String, items = texts.map .ok ∧
      ∀ t ∈ texts, ∃ line, CorpusLine.parse t = .ok line := by
  -- One accepted line in front.
  have more : ∀ {text : String} {line : CorpusLine} {rest : List (Except IoError String)},
      CorpusLine.parse text = .ok line →
      (∃ texts : List String, rest = texts.map .ok ∧
        ∀ t ∈ texts, ∃ line, CorpusLine.parse t = .ok line) →
      ∃ texts : List String, (Except.ok text :: rest : List (Except IoError String))
          = texts.map .ok ∧ ∀ t ∈ texts, ∃ line, CorpusLine.parse t = .ok line := by
    rintro text line rest hline ⟨texts, rfl, htexts⟩
    refine ⟨text :: texts, rfl, fun t ht => ?_⟩
    rcases List.mem_cons.1 ht with rfl | ht
    · exact ⟨line, hline⟩
    · exact htexts t ht
  -- Each line that is refused gives an error, so there is none.
  fun_induction blocksFrom stage count pending items with
  | case1 => exact ⟨[], rfl, by simp⟩
  | case2 count pending e rest ih => exact absurd List.mem_cons_self (h _)
  | case3 count pending text rest n cause hline ih => exact absurd List.mem_cons_self (h _)
  | case4 count pending text rest n hline ih => exact more hline (ih h)
  | case5 count text rest n signee hline ih => exact more hline (ih h)
  | case6 count text rest n signee block hline ih =>
    exact more hline (ih fun e he => h e (List.mem_cons_of_mem _ he))
  | case7 count text rest n s hline ih => exact absurd List.mem_cons_self (h _)
  | case8 count text rest n s block hline ih => exact more hline (ih h)

/-- The reader makes no certification up: each one in a block comes from a line, or was in the block
that was open at the start. Errors in between are allowed. -/
theorem exists_line_of_mem_blocksFrom {stage : String} {count : Nat} {pending : Option EdgeBlock}
    {items : List (Except IoError String)} {b : EdgeBlock} {s : Signature}
    (hb : .ok b ∈ blocksFrom stage count pending items) (hs : s ∈ b.entries) :
    (∃ p ∈ pending, s ∈ p.entries) ∨
      ∃ t, .ok t ∈ items ∧ CorpusLine.parse t = .ok (.certification s) := by
  have later : ∀ {item : Except IoError String} {rest : List (Except IoError String)},
      (∃ t, .ok t ∈ rest ∧ CorpusLine.parse t = .ok (.certification s)) →
      ∃ t, .ok t ∈ item :: rest ∧ CorpusLine.parse t = .ok (.certification s) :=
    fun ⟨t, ht, hline⟩ => ⟨t, List.mem_cons_of_mem _ ht, hline⟩
  fun_induction blocksFrom stage count pending items with
  | case1 pending =>
    obtain ⟨p, hp, heq⟩ := List.mem_map.1 hb
    exact .inl ⟨p, Option.mem_toList.1 hp, Except.ok.inj heq ▸ hs⟩
  | case2 count pending e rest ih =>
    rcases List.mem_cons.1 hb with hb | hb
    · cases hb
    · exact (ih hb).imp_right later
  | case3 count pending text rest n cause hline ih =>
    rcases List.mem_cons.1 hb with hb | hb
    · cases hb
    · exact (ih hb).imp_right later
  | case4 count pending text rest n hline ih => exact (ih hb).imp_right later
  | case5 count text rest n signee hline ih =>
    rcases ih hb with ⟨p, hp, hmem⟩ | h
    · obtain rfl := Option.some.inj hp
      cases hmem
    · exact .inr (later h)
  | case6 count text rest n signee block hline ih =>
    rcases List.mem_cons.1 hb with hb | hb
    · exact .inl ⟨block, rfl, Except.ok.inj hb ▸ hs⟩
    · rcases ih hb with ⟨p, hp, hmem⟩ | h
      · obtain rfl := Option.some.inj hp
        cases hmem
      · exact .inr (later h)
  | case7 count text rest n s' hline ih =>
    rcases List.mem_cons.1 hb with hb | hb
    · cases hb
    · exact (ih hb).imp_right later
  | case8 count text rest n s' block hline ih =>
    rcases ih hb with ⟨p, hp, hmem⟩ | h
    · -- The certification is the one of this line, or was in the block before.
      obtain rfl := Option.some.inj hp
      rcases List.mem_append.1 hmem with hmem | hmem
      · exact .inl ⟨block, rfl, hmem⟩
      · obtain rfl := List.mem_singleton.1 hmem
        exact .inr ⟨text, List.mem_cons_self, hline⟩
    · exact .inr (later h)

/-- Blocks that are read are writable, also those that are read before or behind an error. The
second pass writes such blocks, so it never writes what could not be read: `refine_promotes` rests
on that. -/
theorem writable_of_mem_blocks {stage : String} {source : Source} {b : EdgeBlock}
    (hb : .ok b ∈ blocks stage source) : b.Writable := by
  intro s hs
  rcases exists_line_of_mem_blocksFrom hb hs with ⟨p, hp, -⟩ | ⟨t, ht, hline⟩
  · cases hp
  · obtain ⟨hwritable, hone⟩ := CorpusLine.writable_of_parse hline
    exact ⟨hwritable, hone (lineFeed_not_mem_of_textLines ht)⟩

/-- If a corpus that was written is read without error, then no text in it has a semicolon. By this
the second pass tells something of the certifications that the first pass has retained. -/
theorem separator_free_of_blocks {stage : String} {bs bs' : List EdgeBlock}
    (h : ∀ b ∈ bs, ∀ s ∈ b.entries, s.OnOneLine)
    (hread : blocks stage (Source.ofString (String.join (bs.map EdgeBlock.render)))
      = bs'.map .ok) :
    ∀ b ∈ bs, ∀ s ∈ b.entries,
      ';' ∉ s.date.toList ∧ ';' ∉ s.expires.toList ∧ ';' ∉ s.flags.toList := by
  intro b hb s hs
  rw [blocks, textLines_render h] at hread
  obtain ⟨texts, htexts, hlines⟩ := texts_of_blocksFrom fun e he => by
    rw [hread] at he
    simp at he
  rw [← map_ok_inj.1 htexts] at hlines
  -- The line of `s` is among those that are accepted, so its fields were counted.
  obtain ⟨line, hline⟩ := hlines s.corpusLine
    (List.mem_flatMap.2 ⟨b, hb, List.mem_cons_of_mem _ (List.mem_map_of_mem hs)⟩)
  rw [CorpusLine.parse_corpusLine] at hline
  obtain ⟨s', hs', -⟩ := except_map_eq_ok.1 hline
  exact Signature.separator_free_of_ofCorpusLine hs'

/-- `text` is the corpus of the blocks `bs`: they are written as `text`, and `text` is read as them.
Such blocks have no unknown levels but those under the one code. -/
structure Holds (text : String) (bs : List EdgeBlock) : Prop where
  /-- The text has the blocks one behind the other. -/
  written : text = String.join (bs.map EdgeBlock.render)
  /-- A reader of the text gets `bs` and no error. -/
  read : blocks readingStage (Source.ofString text) = bs.map .ok

/-- A corpus of writable blocks holds them as they come back. `Holds` joins `render_reread`, for
what is written, and `blocks_render`, for what is read. -/
theorem holds_render {bs : List EdgeBlock} (h : ∀ b ∈ bs, b.Writable) :
    Holds (String.join (bs.map EdgeBlock.render)) (bs.map EdgeBlock.reread) where
  written := by
    rw [List.map_map]
    exact congrArg _ (List.map_congr_left fun b _ => b.render_reread.symm)
  read := blocks_render readingStage h

end Corpus

end WebOfTrust
