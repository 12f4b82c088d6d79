import WebOfTrust.Text.Digits

/-!
# `WebOfTrust.KeyId`: key ids

A key id is a non-empty string of hexadecimal digits, kept as it was spelled: the ids `AB` and `ab`
are two. Ids are ordered as strings, which for ASCII is the order of their bytes.

- `KeyId.parse_text`: an id is read back from its text.
-/

set_option autoImplicit false

namespace WebOfTrust

/-- The id of a key: hexadecimal digits, in the spelling in which they were read. So two spellings
of one number are two ids. The field `wellFormed` makes every id one that `parse` accepts. -/
structure KeyId where
  text : String
  wellFormed : text.toList ≠ [] ∧ text.toList.all Text.isHexDigit = true
  deriving DecidableEq, Repr

/-- A text that is no key id. Readers wrap it into a `Malformation`. -/
structure InvalidKeyId where
  text : String
  deriving DecidableEq, Repr

/-- The message of a text that is no key id. It quotes the text as it was given. -/
def InvalidKeyId.message (e : InvalidKeyId) : String :=
  "invalid key id: " ++ e.text

namespace KeyId

/-- Reads a key id. `wellFormed` is tested as it stands, so nothing has to be proved about the
result. -/
def parse (s : String) : Except InvalidKeyId KeyId :=
  if h : s.toList ≠ [] ∧ s.toList.all Text.isHexDigit = true then .ok ⟨s, h⟩ else .error ⟨s⟩

/-- The least id, which stands in where some id is needed. `KeyId.ofText` falls back on it. -/
instance : Inhabited KeyId := ⟨⟨"0", by decide⟩⟩
/-- An id is shown as its text. Messages use it. -/
instance : ToString KeyId := ⟨text⟩

/-- The key id that a text spells, and the least one where it spells none. Examples write ids by
it. -/
def ofText (s : String) : KeyId := (parse s).toOption.getD default

/-! ### Order -/

/-- Ids are ordered by their text, character by character. Artifacts list keys in this order. It is
`compare` on strings. -/
instance : Ord KeyId := ⟨fun a b => compare a.text b.text⟩

/-- The order of texts is transitive, and so is that of ids. It is core's instance for `String`,
under a function. -/
theorem transCmp_text : Std.TransCmp fun a b : KeyId => compare a.text b.text :=
  inferInstanceAs (Std.TransCmp (compareOn KeyId.text))

/-- Tables under ids need a transitive order to stay ascending. `Table.insertEntry_ascending` asks
for this instance. -/
instance : Std.TransOrd KeyId where
  eq_swap := transCmp_text.eq_swap
  isLE_trans := transCmp_text.isLE_trans

/-- Two ids that compare equal are one, so a table finds what was entered under an id and nothing
else. `Table.find?_insert` asks for this instance. -/
instance : Std.LawfulEqOrd KeyId where
  compare_self {a} := by
    show compare a.text a.text = .eq
    simp
  eq_of_compare {a b} h := by
    have h : compare a.text b.text = .eq := h
    have h : a.text = b.text := Std.LawfulEqOrd.eq_of_compare h
    cases a; cases b; simpa using h

/-- An id is read back from its text. What writers write is `text`, so readers get the id that was
written. -/
theorem parse_text (k : KeyId) : parse k.text = .ok k := by
  simp [parse, k.wellFormed]

/-- An id is read from its own text and from no other. So `parse` is the inverse of `text`, wherever
it succeeds. -/
theorem parse_eq_ok_iff {s : String} {k : KeyId} : parse s = .ok k ↔ k.text = s := by
  constructor
  · intro h
    simp only [parse] at h
    split at h
    · cases h; rfl
    · cases h
  · rintro rfl
    exact parse_text k

end KeyId

end WebOfTrust
