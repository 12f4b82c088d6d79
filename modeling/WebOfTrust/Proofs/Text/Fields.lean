import WebOfTrust.Proofs.Text.Digits
import WebOfTrust.Text.Blank
import WebOfTrust.Text.Split

/-!
# `WebOfTrust.Proofs.Text.Fields`: fields between separators

Lines are written without escaping their fields, so a separator inside a field makes one field more.
That is also how such a line is noticed: its reader counts the fields.

- `splitOn_ofFields`: fields without the separator are found again;
- `length_splitOn_ofFields_iff`: as many fields as were written are found just then;
- `trimEnd_eq_self`: blanks are taken from the end of a line only if it ends with one.
-/

set_option autoImplicit false

namespace WebOfTrust.Text

/-! ### Fields -/

/-- There is one field more than there are separators. Readers count fields, and proofs count
separators. -/
theorem length_splitOn (sep : Char) (cs : List Char) :
    (splitOn sep cs).length = cs.count sep + 1 := by
  induction cs with
  | nil => rfl
  | cons c cs ih =>
    simp only [splitOn]
    split
    · next h => simp [ih, h]
    · next h =>
      rw [List.count_cons_of_ne h, ← ih]
      -- A further character goes into the first field, which is there.
      cases hs : splitOn sep cs with
      | nil => exact absurd hs (splitOn_ne_nil sep cs)
      | cons field fields => simp

/-- The fields of a text have no characters but those of the text, and not the separator. -/
theorem mem_of_mem_splitOn {sep : Char} {cs field : List Char} (hf : field ∈ splitOn sep cs)
    {c : Char} (hc : c ∈ field) : c ∈ cs ∧ c ≠ sep := by
  induction cs generalizing field with
  | nil =>
    simp only [splitOn, List.mem_singleton] at hf
    simp [hf] at hc
  | cons d cs ih =>
    -- Either `d` is the separator and the first field is empty, or `d` begins the first field.
    have tail : ∀ {g}, g ∈ splitOn sep cs → c ∈ g → c ∈ d :: cs ∧ c ≠ sep := fun hg hc =>
      (ih hg hc).imp_left (List.mem_cons_of_mem _)
    simp only [splitOn] at hf
    split at hf
    · rcases List.mem_cons.1 hf with rfl | hf
      · cases hc
      · exact tail hf hc
    next hd =>
    cases hs : splitOn sep cs with
    | nil => exact absurd hs (splitOn_ne_nil sep cs)
    | cons g gs =>
      rw [hs] at hf tail
      rcases List.mem_cons.1 hf with rfl | hf
      · rcases List.mem_cons.1 hc with rfl | hc
        · exact ⟨List.mem_cons_self, hd⟩
        · exact tail List.mem_cons_self hc
      · exact tail (List.mem_cons_of_mem _ hf) hc

/-- The same of the fields as texts, in which form readers have them. `fieldsOf` turns lists of
characters into strings. -/
theorem field_of_splitOn {sep : Char} {cs : List Char} {f : String}
    (hf : f ∈ (splitOn sep cs).map String.ofList) :
    sep ∉ f.toList ∧ ∀ c ∈ f.toList, c ∈ cs := by
  obtain ⟨field, hfield, rfl⟩ := List.mem_map.1 hf
  rw [String.toList_ofList]
  exact ⟨fun h => (mem_of_mem_splitOn hfield h).2 rfl, fun c h => (mem_of_mem_splitOn hfield h).1⟩

/-- The separators of joined fields are those between the fields and those in them. By this the
number of the fields that are found tells whether one of them has a separator. -/
theorem count_join (sep : Char) {fields : List (List Char)} (hne : fields ≠ []) :
    (join sep fields).count sep + 1 = fields.flatten.count sep + fields.length := by
  induction fields with
  | nil => exact absurd rfl hne
  | cons field fields ih =>
    cases fields with
    | nil => simp [join]
    | cons g gs =>
      -- One separator stands between `field` and `g`.
      have ih := ih (by simp)
      simp only [join, List.count_append, List.count_cons_self, List.flatten_cons,
        List.length_cons] at ih ⊢
      omega

/-- Fields without the separator are found again. At least one field is needed, because no fields
and one empty field give the same text. -/
theorem splitOn_ofFields {sep : Char} {fields : List String} (hne : fields ≠ [])
    (h : ∀ f ∈ fields, sep ∉ f.toList) :
    (splitOn sep (ofFields sep fields).toList).map String.ofList = fields := by
  have hsplit : splitOn sep (join sep (fields.map String.toList)) = fields.map String.toList :=
    splitOn_join (by simpa using hne) (by simpa using h)
  rw [ofFields, String.toList_ofList, hsplit]
  simp

/-- As many fields as were written are found just when none of them has the separator. Readers count
fields before anything else, so this tells which lines they refuse. -/
theorem length_splitOn_ofFields_iff {sep : Char} {fields : List String} (hne : fields ≠ []) :
    (splitOn sep (ofFields sep fields).toList).length = fields.length ↔
      ∀ f ∈ fields, sep ∉ f.toList := by
  have hne' : fields.map String.toList ≠ [] := by simpa using hne
  rw [ofFields, String.toList_ofList, length_splitOn, count_join sep hne', List.length_map,
    Nat.add_eq_right, List.count_eq_zero]
  simp

/-- A character of joined fields is the separator or comes from a field. So a text without line
feeds in its fields has none, if `sep` is none. -/
theorem mem_ofFields {sep c : Char} {fields : List String} (h : c ∈ (ofFields sep fields).toList) :
    c = sep ∨ ∃ f ∈ fields, c ∈ f.toList := by
  rw [ofFields, String.toList_ofList] at h
  induction fields with
  | nil => cases h
  | cons field fields ih =>
    -- The last field has no separator behind it.
    cases fields with
    | nil => exact .inr ⟨field, by simp, h⟩
    | cons g gs =>
      rcases List.mem_append.1 h with h | h
      · exact .inr ⟨field, by simp, h⟩
      rcases List.mem_cons.1 h with h | h
      · exact .inl h
      · rcases ih h with h | ⟨f, hf, hc⟩
        · exact .inl h
        · exact .inr ⟨f, List.mem_cons_of_mem _ hf, hc⟩

/-- The last field ends the text, behind a separator. It tells how a line ends from how its last
field does. -/
theorem ofFields_concat (sep : Char) {fields : List String} (hne : fields ≠ []) (last : String) :
    (ofFields sep (fields ++ [last])).toList
      = (ofFields sep fields).toList ++ sep :: last.toList := by
  simp only [ofFields, String.toList_ofList]
  induction fields with
  | nil => exact absurd rfl hne
  | cons field fields ih =>
    cases fields with
    | nil => simp [join]
    | cons g gs =>
      have ih := ih (by simp)
      simpa [join] using ih

/-- The text before the first separator, if it has none itself, and the text behind it, which may
have some. -/
theorem splitFirst_append {sep : Char} {before : List Char} (h : sep ∉ before)
    (behind : List Char) : splitFirst sep (before ++ sep :: behind) = some (before, behind) := by
  induction before with
  | nil => simp [splitFirst]
  | cons c before ih =>
    simp only [List.mem_cons, not_or] at h
    simp [splitFirst, Ne.symm h.1, ih h.2]

/-! ### Blanks at either end -/

/-- What is left after trimming was there before. `trimEnd` is the case of blanks, and `lineBody`
that of line endings. -/
theorem mem_of_mem_trimEndWhere {p : Char → Bool} {cs : List Char} {c : Char}
    (h : c ∈ trimEndWhere p cs) : c ∈ cs := by
  induction cs with
  | nil => simp [trimEndWhere] at h
  | cons d cs ih =>
    simp only [trimEndWhere] at h
    -- Whether a character is left depends on whether something is left behind it.
    split at h
    · split at h
      · cases h
      · exact List.mem_cons.2 (.inl (List.mem_singleton.1 h))
    · next e es hs =>
      rw [hs] at ih
      rcases List.mem_cons.1 h with rfl | h
      · exact List.mem_cons_self
      · exact List.mem_cons_of_mem _ (ih h)

/-- Nothing is taken from a text that ends with something else than a blank. The last character is
given by `List.getLast?`. -/
theorem trimEnd_eq_self {cs : List Char} {c : Char} (hlast : cs.getLast? = some c)
    (hc : isBlank c = false) : trimEnd cs = cs := by
  obtain ⟨ys, rfl⟩ := List.getLast?_eq_some_iff.1 hlast
  exact trimEndWhere_eq_self hc

/-- Nothing is taken from a text without blanks, at neither end. The condition is on every
character, so both ends are covered. -/
theorem trim_eq_self {cs : List Char} (h : ∀ c ∈ cs, isBlank c = false) : trim cs = cs := by
  have hstart : cs.dropWhile isBlank = cs := by
    cases cs with
    | nil => rfl
    | cons c cs => exact List.dropWhile_cons_of_neg (by simp [h c List.mem_cons_self])
  rw [trim, hstart]
  cases hlast : cs.getLast? with
  | none =>
    rw [List.getLast?_eq_none_iff.1 hlast]
    rfl
  | some c => exact trimEnd_eq_self hlast (h c (List.mem_of_getLast? hlast))

/-- A text that ends with something else than a blank is not trimmed away. `isBlankLine` asks
whether everything is. -/
theorem trim_ne_nil {cs : List Char} {c : Char} (hlast : cs.getLast? = some c)
    (hc : isBlank c = false) : trim cs ≠ [] := by
  obtain ⟨ys, rfl⟩ := List.getLast?_eq_some_iff.1 hlast
  -- What is taken off at the start ends before this character.
  obtain ⟨zs, hzs⟩ : ∃ zs, (ys ++ [c]).dropWhile isBlank = zs ++ [c] := by
    induction ys with
    | nil => exact ⟨[], by simp [hc]⟩
    | cons y ys ih =>
      simp only [List.cons_append, List.dropWhile_cons]
      split
      · exact ih (by simp)
      · exact ⟨y :: ys, rfl⟩
  rw [trim, hzs, trimEnd, trimEndWhere_eq_self hc]
  simp

/-- Neither is one that begins with something else. Status lines begin with the letter of a code,
and it is enough to look there. -/
theorem trim_cons_ne_nil {c : Char} (hc : isBlank c = false) (cs : List Char) :
    trim (c :: cs) ≠ [] := by
  rw [trim, List.dropWhile_cons_of_neg (by simp [hc]), trimEnd, trimEndWhere]
  split <;> simp [hc]

/-- All blanks below 128 come before the exclamation mark, so the printable characters of ASCII are
none. -/
theorem isBlank_of_printable {c : Char} (h : 0x20 < c.toNat ∧ c.toNat < 0x80) :
    isBlank c = false := by
  simp only [isBlank, blankRanges, List.any_cons, List.any_nil, Bool.or_eq_false_iff,
    Bool.and_eq_false_iff, decide_eq_false_iff_not]
  -- One range of blanks at a time.
  repeat' apply And.intro
  all_goals first | omega | trivial

/-- A digit is no blank, so a line that ends with a number is not trimmed. The ranges of blanks have
no digit in them. -/
theorem isBlank_of_isDigit {c : Char} (h : c.isDigit = true) : isBlank c = false := by
  rw [Char.isDigit_iff_toNat] at h
  have h0 : '0'.toNat = 48 := rfl
  have h9 : '9'.toNat = 57 := rfl
  exact isBlank_of_printable (by omega)

/-- Hexadecimal digits are printable characters of ASCII. They are none of the separators, line
feeds and blanks that lines are built with. -/
theorem printable_of_isHexDigit {c : Char} (h : isHexDigit c = true) :
    0x20 < c.toNat ∧ c.toNat < 0x80 := by
  obtain ⟨d, hd⟩ := Option.isSome_iff_exists.1 h
  obtain ⟨hvalue, -⟩ := Option.filter_eq_some_iff.1 hd
  -- The code points of the three ranges, for `omega`.
  have le : ∀ {a b : Char}, a ≤ b → a.toNat ≤ b.toNat := fun h => h
  simp only [digitValue] at hvalue
  have h0 : '0'.toNat = 48 := rfl
  have h9 : '9'.toNat = 57 := rfl
  have ha : 'a'.toNat = 97 := rfl
  have hz : 'z'.toNat = 122 := rfl
  have hA : 'A'.toNat = 65 := rfl
  have hZ : 'Z'.toNat = 90 := rfl
  repeat' split at hvalue
  · next h => have := le h.1; have := le h.2; omega
  · next h => have := le h.1; have := le h.2; omega
  · next h => have := le h.1; have := le h.2; omega
  · cases hvalue

/-- A hexadecimal digit is no blank, so a line that ends with a key id is not trimmed. -/
theorem isBlank_of_isHexDigit {c : Char} (h : isHexDigit c = true) : isBlank c = false :=
  isBlank_of_printable (printable_of_isHexDigit h)

/-- A line whose last field is a number ends with a digit. Lines of both tables and of the corpus
do. -/
theorem getLast?_ofFields_number (sep : Char) {fields : List String} (hne : fields ≠ [])
    (n : Nat) :
    ∃ c, (ofFields sep (fields ++ [toString n])).toList.getLast? = some c ∧
      c.isDigit = true := by
  have hn : (toString n).toList ≠ [] := by
    rw [Nat.toString_eq_repr, Nat.toList_repr]
    exact Nat.toDigits_ne_nil
  refine ⟨(toString n).toList.getLast hn, ?_, isDigit_of_mem_toString (List.getLast_mem hn)⟩
  rw [ofFields_concat sep hne, List.getLast?_append, List.getLast?_cons,
    List.getLast?_eq_some_getLast hn]
  rfl

end WebOfTrust.Text
