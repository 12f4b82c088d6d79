import Mathlib.Data.List.Forall2
import WebOfTrust.Proofs.Dump
import WebOfTrust.Proofs.Dump.Escape

/-!
# `WebOfTrust.Proofs.Dump.Encoding`: a text is read from any of its forms

Writers of dumps differ in what they escape. A character may stand as it is, unless it is the
backslash; it may be given by its bytes, with digits of either case; and three characters have an
escape of their own. A text is written character by character, each in any of its forms, and it is
read from whatever comes of that. A form tells from its first one or two characters which of these
it is and where it ends, so the reader never takes a part of one form for the beginning of another.

- `unescapeBytes_charForm`: one character, read from any of its forms, whatever follows;
- `parseLine_policyLine`: the line of a policy URI, in which colons may stand as they are;
- `text_read_from_every_form`: all forms of a text, that of `escapeLine` among them.
-/

set_option autoImplicit false

namespace WebOfTrust

open Text

namespace Dump

/-- A field that holds the decimal digits of a number below the limit is read as this number. -/
theorem Fields.number_eq_ok {f : Fields} {limit index n : Nat}
    (hfield : f.texts[index]? = some (toString n)) (hn : n < limit) :
    f.number limit index = .ok n := by
  have hblank : ∀ c ∈ (toString n).toList, isBlank c = false := fun c hc =>
    isBlank_of_isDigit (isDigit_of_mem_toString hc)
  simp only [number, get, hfield, except_bind_ok, trim_eq_self hblank, readNumber_toString hn]

/-- A field that holds the decimal digits of a byte is read as this byte. Blanks are trimmed first,
and a digit is none. -/
theorem Fields.byte_eq_ok {f : Fields} {index : Nat} {b : UInt8}
    (hfield : f.texts[index]? = some (toString b.toNat)) : f.byte index = .ok b := by
  rw [byte, number_eq_ok hfield b.toNat_lt]
  exact congrArg _ UInt8.ofNat_toNat

/-! ### Forms -/

/-- A hexadecimal digit for a number below sixteen, of either case. The writer uses one case, and
the reader accepts both. -/
def IsDigitOf (n : Nat) (c : Char) : Prop := c = hexDigit n ∨ c = (hexDigit n).toUpper

/-- The escape of a byte: a backslash, the letter `x`, and two hexadecimal digits. -/
inductive ByteForm (b : UInt8) : List Char → Prop
  | intro {high low : Char} (hhigh : IsDigitOf (b.toNat / 16) high)
      (hlow : IsDigitOf (b.toNat % 16) low) : ByteForm b ['\\', 'x', high, low]

/-- The forms of a character. A character may be written by the bytes of its encoding, so a longer
one has several escapes in a row. -/
inductive CharForm (c : Char) : List Char → Prop
  /-- The character itself. -/
  | verbatim (hc : c ≠ '\\') : CharForm c [c]
  /-- The escapes of its bytes. -/
  | bytes {forms : List (List Char)} (h : List.Forall₂ ByteForm (Utf8.encodeChar c) forms) :
      CharForm c forms.flatten
  /-- The escape of its own that it has. -/
  | own {letter : Char} (h : (c, letter) ∈ [('\\', '\\'), ('\n', 'n'), ('\t', 't')]) :
      CharForm c ['\\', letter]

/-- `raw` has each character of the text in one of its forms, and nothing else. Most texts are
encoded in many ways, and `unescape` has to undo all of them. -/
def Encodes (text raw : String) : Prop :=
  ∃ forms, List.Forall₂ CharForm text.toList forms ∧ raw.toList = forms.flatten

/-! ### Reading a form -/

/-- A digit is read as its number in either case. `Text.digitBelow` does not tell the cases
apart. -/
theorem digitBelow_of_isDigitOf {n : Nat} {c : Char} (hn : n < 16) (h : IsDigitOf n c) :
    digitBelow 16 c = some n := by
  have hupper : ∀ n < 16, digitBelow 16 (hexDigit n).toUpper = some n := by decide
  rcases h with rfl | rfl
  · exact digitBelow_hexDigit hn
  · exact hupper n hn

/-- The digits of a byte spell it, in either case, and the cases may differ. It joins two digits,
the upper one of which is worth sixteen. -/
theorem hexPair_of_isDigitOf {b : UInt8} {high low : Char} (hhigh : IsDigitOf (b.toNat / 16) high)
    (hlow : IsDigitOf (b.toNat % 16) low) : hexPair high low = some b := by
  have hb : b.toNat < 256 := b.toNat_lt
  simp only [hexPair, digitBelow_of_isDigitOf (show b.toNat / 16 < 16 by omega) hhigh,
    digitBelow_of_isDigitOf (show b.toNat % 16 < 16 by omega) hlow]
  show some (UInt8.ofNat (16 * (b.toNat / 16) + b.toNat % 16)) = some b
  rw [Nat.div_add_mod, UInt8.ofNat_toNat]

/-- The escape of a byte is read as this byte, whatever follows it. `unescapeBytes` takes four
characters at once there. -/
theorem unescapeBytes_byteForm {b : UInt8} {form : List Char} (h : ByteForm b form)
    (rest : List Char) : unescapeBytes (form ++ rest) = b :: unescapeBytes rest := by
  cases h with
  | intro hhigh hlow =>
    simp only [List.cons_append, List.nil_append, unescapeBytes, hexPair_of_isDigitOf hhigh hlow]

/-- Several escapes in a row are read as their bytes. The induction is on the bytes, one escape
after the other. -/
theorem unescapeBytes_byteForms {bytes : List UInt8} {forms : List (List Char)}
    (h : List.Forall₂ ByteForm bytes forms) (rest : List Char) :
    unescapeBytes (forms.flatten ++ rest) = bytes ++ unescapeBytes rest := by
  induction h with
  | nil => rfl
  | cons hform _ ih =>
    rw [List.flatten_cons, List.append_assoc, unescapeBytes_byteForm hform, ih, List.cons_append]

/-- A character is read from each of its forms, whatever follows. What is read are its bytes, as the
reader puts characters together only at the end. -/
theorem unescapeBytes_charForm {c : Char} {form : List Char} (h : CharForm c form)
    (rest : List Char) :
    unescapeBytes (form ++ rest) = Utf8.encodeChar c ++ unescapeBytes rest := by
  cases h with
  | verbatim hc => simp [unescapeBytes, hc]
  | bytes hforms => exact unescapeBytes_byteForms hforms rest
  | own hletter =>
    simp only [List.mem_cons, Prod.mk.injEq, List.not_mem_nil, or_false] at hletter
    rcases hletter with ⟨rfl, rfl⟩ | ⟨rfl, rfl⟩ | ⟨rfl, rfl⟩
    all_goals simp [unescapeBytes]

/-- The forms of a text, one behind the other, are read as the bytes of the text. -/
theorem unescapeBytes_charForms {cs : List Char} {forms : List (List Char)}
    (h : List.Forall₂ CharForm cs forms) : unescapeBytes forms.flatten = Utf8.encode cs := by
  induction h with
  | nil => rfl
  | cons hform _ ih =>
    rw [List.flatten_cons, unescapeBytes_charForm hform, ih, Utf8.encode_cons]

/-- A text is read from whatever encodes it: the bytes are those of the text, and they are decoded
without replacements. -/
theorem unescape_of_encodes {text raw : String} (h : Encodes text raw) : unescape raw = text := by
  obtain ⟨forms, hforms, hraw⟩ := h
  rw [unescape, hraw, unescapeBytes_charForms hforms, Utf8.decodeReplacing_encode,
    String.ofList_toList]

/-! ### Writing -/

/-- What a character is escaped to is one of its forms. Control characters without an escape of
their own are written by their bytes. -/
theorem charForm_escapeChar (c : Char) : CharForm c (escapeChar c) := by
  rw [escapeChar]
  split
  · next hc => exact .own (by simp [hc])
  split
  · next hcontrol =>
    -- A control character is one byte, so one escape is enough for it.
    have hbyte : Utf8.encodeChar c = [UInt8.ofNat c.toNat] := if_pos (by omega)
    have hforms : List.Forall₂ ByteForm (Utf8.encodeChar c)
        ['\\' :: 'x' :: hexByte (UInt8.ofNat c.toNat)] := by
      rw [hbyte]
      exact .cons (.intro (.inl rfl) (.inl rfl)) .nil
    rw [← List.append_nil ('\\' :: 'x' :: _)]
    exact .bytes hforms
  · next hc _ => exact .verbatim hc

/-- What `escapeLine` writes encodes the text. -/
theorem encodes_escapeLine (text : String) : Encodes text (escapeLine text) := by
  refine ⟨text.toList.map escapeChar, ?_, ?_⟩
  · rw [List.forall₂_map_right_iff, List.forall₂_same]
    exact fun c _ => charForm_escapeChar c
  · rw [escapeLine, String.toList_ofList, List.flatMap_def]

/-! ### Lines of policy URIs -/

/-- The line of a policy URI whose data is `raw`. The number of its kind is `policyUriKind`, spelled
out. -/
def policyLine (flags : UInt8) (length : UInt64) (raw : String) : String :=
  "spk:26:" ++ toString flags.toNat ++ ":" ++ toString length.toNat ++ ":" ++ raw

/-- The fields of such a line are taken apart at each colon, those of the data included. The reader
puts them together again. -/
theorem fields_policyLine (flags : UInt8) (length : UInt64) (raw : String) :
    (splitOn ':' (policyLine flags length raw).toList).map String.ofList
      = "spk" :: "26" :: toString flags.toNat :: toString length.toNat ::
        (splitOn ':' raw.toList).map String.ofList := by
  have hnumber : ∀ n : Nat, ':' ∉ (toString n).toList := fun n => not_mem_toString (by decide)
  have hline : (policyLine flags length raw).toList =
      ['s', 'p', 'k'] ++ ':' :: (['2', '6'] ++ ':' :: ((toString flags.toNat).toList ++ ':' ::
        ((toString length.toNat).toList ++ ':' :: raw.toList))) := by
    simp [policyLine]
  rw [hline, splitOn_append_cons _ (by decide), splitOn_append_cons _ (by decide),
    splitOn_append_cons _ (hnumber _), splitOn_append_cons _ (hnumber _)]
  simp only [List.map_cons, String.ofList_toList]

/-- A line that ends with data without line ends has none itself. An escaped one does not count,
since it is not there yet. -/
theorem lineBody_policyLine (flags : UInt8) (length : UInt64) {raw : String}
    (hr : '\r' ∉ raw.toList) (hn : '\n' ∉ raw.toList) :
    lineBody (policyLine flags length raw) = (policyLine flags length raw).toList := by
  obtain ⟨front, c, hline, hc⟩ : ∃ front c, (policyLine flags length raw).toList = front ++ [c] ∧
      (c = ':' ∨ c ∈ raw.toList) := by
    rcases List.eq_nil_or_concat' raw.toList with hraw | ⟨front, c, hraw⟩
    · exact ⟨("spk:26:" ++ toString flags.toNat ++ ":" ++ toString length.toNat).toList, ':',
        by simp [policyLine, hraw], .inl rfl⟩
    · exact ⟨("spk:26:" ++ toString flags.toNat ++ ":" ++ toString length.toNat ++ ":").toList
        ++ front, c, by simp [policyLine, hraw], .inr (by simp [hraw])⟩
  have hends : (c = '\r' || c = '\n') = false := by
    rw [Bool.or_eq_false_iff, decide_eq_false_iff_not, decide_eq_false_iff_not]
    rcases hc with rfl | hc
    · decide
    · exact ⟨fun h => hr (h ▸ hc), fun h => hn (h ▸ hc)⟩
  rw [lineBody, hline]
  exact trimEndWhere_eq_self hends

/-- The data of a policy URI are read as they stand, colons included. What the length says is not
compared with them. -/
theorem parseLine_policyLine (flags : UInt8) (length : UInt64) {raw : String}
    (hr : '\r' ∉ raw.toList) (hn : '\n' ∉ raw.toList) :
    parseLine (policyLine flags length raw)
      = .ok (some (.spk ⟨policyUriKind, flags, length, unescape raw⟩)) := by
  have hbody := lineBody_policyLine flags length hr hn
  rw [lineBody] at hbody
  -- The fields behind the fourth are joined again, with the colons at which they were taken apart.
  have hdata : ofFields ':' ((splitOn ':' raw.toList).map String.ofList) = raw := by
    rw [← String.toList_inj, ofFields, String.toList_ofList, List.map_map,
      show String.toList ∘ String.ofList = id from funext fun _ => String.toList_ofList,
      List.map_id, join_splitOn]
  have hspk : parseSpk ⟨.spk, "spk" :: "26" :: toString flags.toNat :: toString length.toNat ::
      (splitOn ':' raw.toList).map String.ofList⟩
        = .ok ⟨policyUriKind, flags, length, unescape raw⟩ := by
    have hkind : ∀ f : Fields, f.texts[1]? = some "26" → f.byte 1 = .ok policyUriKind :=
      fun f hf => Fields.byte_eq_ok hf
    simp only [parseSpk, List.drop_succ_cons, List.drop_zero, hdata]
    have hflags : ∀ f : Fields, f.texts[2]? = some (toString flags.toNat) → f.byte 2 = .ok flags :=
      fun f hf => Fields.byte_eq_ok hf
    have hlength : ∀ f : Fields, f.texts[3]? = some (toString length.toNat) →
        f.number UInt64.size 3 = .ok length.toNat :=
      fun f hf => Fields.number_eq_ok hf length.toNat_lt
    rw [hkind _ rfl, hflags _ rfl, hlength _ rfl]
    simp only [except_bind_ok, Functor.map, Except.map, UInt64.ofNat_toNat]
    rfl
  simp only [parseLine, hbody, fields_policyLine, hspk]
  rfl

/-- What is certain of the forms of a text: each of them is read as the text, and the writer uses a
form that is safe within a line. -/
structure ReadFromEveryForm (text : String) : Prop where
  /-- Whichever form each character has, the text is read. -/
  unescaped : ∀ raw, Encodes text raw → unescape raw = text
  /-- The writer of escapes chooses one of the forms, and one without ASCII control characters. -/
  written : Encodes text (escapeLine text)
  /-- No character that is written is a control character of ASCII, so no line is broken. -/
  printable : ∀ c ∈ (escapeLine text).toList, 0x20 ≤ c.toNat ∧ c.toNat ≠ 0x7F
  /-- The data of a policy URI. Only a line end that is not escaped would end the line. -/
  declared : ∀ raw, Encodes text raw → '\r' ∉ raw.toList → '\n' ∉ raw.toList →
    ∀ (flags : UInt8) (length : UInt64), ∃ r : SpkRecord,
      parseLine ("spk:26:" ++ toString flags.toNat ++ ":" ++ toString length.toNat ++ ":" ++ raw)
        = .ok (some (.spk r)) ∧
      r.isPolicyUri = true ∧ r.flags = flags ∧ r.length = length ∧ r.data = text

/-- Any text is read from any of its forms, alone and as the data of a policy URI. The text may be
any, and so may the flags and the length. -/
theorem text_read_from_every_form (text : String) : ReadFromEveryForm text where
  unescaped _ h := unescape_of_encodes h
  written := encodes_escapeLine text
  printable _ h := printable_of_mem_escapeLine h
  declared _ h hr hn flags length :=
    ⟨_, parseLine_policyLine flags length hr hn, rfl, rfl, rfl, unescape_of_encodes h⟩

/-- Behind an escaped backslash, the rest of an escape is text. -/
example : unescape "\\\\x41\\x41\\xC3\\xa9:\\" = "\\x41Aé:\\" := by decide +kernel

end Dump

end WebOfTrust
