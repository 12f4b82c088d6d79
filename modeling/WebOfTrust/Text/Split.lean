/-!
# `WebOfTrust.Text.Split`: separated fields

Dump records separate their fields by colons, tables and corpus lines by semicolons. Splitting a
text at a separator gives one field more than there are separators; joining is its inverse.

- `join_splitOn`: nothing is lost by splitting;
- `splitOn_join`: fields free of the separator are found again.
-/

set_option autoImplicit false

namespace WebOfTrust.Text

/-- The fields of `cs` between the occurrences of `sep`. -/
def splitOn (sep : Char) : List Char → List (List Char)
  | [] => [[]]
  | c :: cs =>
    if c = sep then
      [] :: splitOn sep cs
    else
      match splitOn sep cs with
      | [] => [[c]]
      | field :: fields => (c :: field) :: fields

/-- The fields with `sep` between each and the next. -/
def join (sep : Char) : List (List Char) → List Char
  | [] => []
  | [field] => field
  | field :: fields => field ++ sep :: join sep fields

/-- The fields of a text between the occurrences of `sep`. -/
def fieldsOf (sep : Char) (s : String) : List String :=
  (splitOn sep s.toList).map String.ofList

/-- The texts with `sep` between each and the next. -/
def ofFields (sep : Char) (fields : List String) : String :=
  String.ofList (join sep (fields.map String.toList))

/-- The fields and the separators between them, one after the other. A pass writes them as pieces of
their own. -/
def interleave (sep : Char) (fields : List String) : List String :=
  fields.intersperse (String.singleton sep)

/-- The text before the first `sep` and the text behind it. -/
def splitFirst (sep : Char) : List Char → Option (List Char × List Char)
  | [] => none
  | c :: cs =>
    if c = sep then some ([], cs)
    else (splitFirst sep cs).map fun (before, behind) => (c :: before, behind)

/-! ### Splitting and joining -/

/-- Fields and separators, one after the other, make up the text. So `interleave` and `ofFields`
spell one line. -/
theorem join_interleave (sep : Char) (fields : List String) :
    String.join (interleave sep fields) = ofFields sep fields := by
  induction fields with
  | nil => rfl
  | cons field rest ih =>
    cases rest with
    | nil => simp [interleave, ofFields, join]
    | cons next rest =>
      simp only [interleave, ofFields] at ih
      simp [interleave, ofFields, join, ih]

/-- A text has one field at least, which may be empty. The cases are those of the recursion of
`splitOn`. -/
theorem splitOn_ne_nil (sep : Char) (cs : List Char) : splitOn sep cs ≠ [] := by
  cases cs with
  | nil => simp [splitOn]
  | cons c cs =>
    simp only [splitOn]
    split
    · simp
    · split <;> simp

/-- The fields of a text make it up again. So nothing of a text is lost by `splitOn`. -/
theorem join_splitOn (sep : Char) (cs : List Char) : join sep (splitOn sep cs) = cs := by
  induction cs with
  | nil => rfl
  | cons c cs ih =>
    have hne := splitOn_ne_nil sep cs
    simp only [splitOn]
    split
    · next h =>
      cases hs : splitOn sep cs with
      | nil => exact absurd hs hne
      | cons field fields => simp [join, ← hs, ih, h]
    · cases hs : splitOn sep cs with
      | nil => exact absurd hs hne
      | cons field fields =>
        rw [hs] at ih
        cases fields with
        | nil => simpa [join] using ih
        | cons g gs => simpa [join] using ih

/-- A text without a separator is a single field. It is the case in which a line has one field. -/
theorem splitOn_of_not_mem {sep : Char} {cs : List Char} (h : sep ∉ cs) :
    splitOn sep cs = [cs] := by
  induction cs with
  | nil => rfl
  | cons c cs ih =>
    simp only [List.mem_cons, not_or] at h
    simp [splitOn, Ne.symm h.1, ih h.2]

/-- A field without a separator in it ends at the first one behind it. Lines are taken apart by it,
field by field. -/
theorem splitOn_append_cons {sep : Char} {field : List Char} (rest : List Char)
    (h : sep ∉ field) :
    splitOn sep (field ++ sep :: rest) = field :: splitOn sep rest := by
  induction field with
  | nil => simp [splitOn]
  | cons c cs ih =>
    simp only [List.mem_cons, not_or] at h
    simp [splitOn, Ne.symm h.1, ih h.2]

/-- Fields are read back from the text that they make, if no separator is in any of them and there
is one at least. With `join_splitOn`, both are inverse to each other. -/
theorem splitOn_join {sep : Char} {fields : List (List Char)} (hne : fields ≠ [])
    (h : ∀ field ∈ fields, sep ∉ field) : splitOn sep (join sep fields) = fields := by
  induction fields with
  | nil => exact absurd rfl hne
  | cons field fields ih =>
    cases fields with
    | nil => exact splitOn_of_not_mem (h field (by simp))
    | cons g gs =>
      simp only [join]
      rw [splitOn_append_cons _ (h field (by simp)), ih (by simp)]
      intro f hf
      exact h f (List.mem_cons_of_mem _ hf)

end WebOfTrust.Text
