import WebOfTrust.Dump.Escape
import WebOfTrust.Proofs.Text.Utf8

/-!
# `WebOfTrust.Proofs.Dump.Escape`: escaped texts are read back

The writer of escapes uses two of them, a doubled backslash and two hexadecimal digits for a control
character. The reader knows more, and takes a backslash that begins none of them as it is. It undoes
the writer all the same, since no backslash is written but to begin an escape.

- `unescape_escapeLine`: any text comes back from its escaped form;
- `printable_of_mem_escapeLine`: an escaped text has no control characters, so it stays on one line.
-/

set_option autoImplicit false

namespace WebOfTrust.Dump

open Text

/-! ### Single characters -/

/-- The digit that is written for a number below sixteen is read as this number. There are sixteen
cases, so `decide` settles them. -/
theorem digitBelow_hexDigit {n : Nat} (h : n < 16) : digitBelow 16 (hexDigit n) = some n := by
  have all : ∀ n < 16, digitBelow 16 (hexDigit n) = some n := by decide
  exact all n h

/-- Two digits spell the byte that they were written for: one its upper half and one its lower
half. -/
theorem hexPair_hexDigit (b : UInt8) :
    hexPair (hexDigit (b.toNat / 16)) (hexDigit (b.toNat % 16)) = some b := by
  have hb : b.toNat < 256 := b.toNat_lt
  simp only [hexPair, digitBelow_hexDigit (show b.toNat / 16 < 16 by omega),
    digitBelow_hexDigit (show b.toNat % 16 < 16 by omega)]
  show some (UInt8.ofNat (16 * (b.toNat / 16) + b.toNat % 16)) = some b
  rw [Nat.div_add_mod, UInt8.ofNat_toNat]

/-- A character is read back from its escaped form, whatever follows. The three kinds of forms are
gone through: a letter, two digits, and the character itself. -/
theorem unescapeBytes_escapeChar (c : Char) (rest : List Char) :
    unescapeBytes (escapeChar c ++ rest) = Utf8.encodeChar c ++ unescapeBytes rest := by
  rw [escapeChar]
  split
  · next hc =>
    rw [hc]
    simp [unescapeBytes]
  split
  · next hcontrol =>
    -- A control character is a single byte in UTF-8, the one that its two digits say.
    have hbyte : Utf8.encodeChar c = [UInt8.ofNat c.toNat] := if_pos (by omega)
    simp only [hbyte, hexByte, List.cons_append, List.nil_append, unescapeBytes, hexPair_hexDigit]
  · next hc _ => simp [unescapeBytes, hc]

/-- The characters of an escaped form are no control characters, since those are what `escapeChar`
replaces. -/
theorem printable_of_mem_escapeChar {c d : Char} (h : d ∈ escapeChar c) :
    0x20 ≤ d.toNat ∧ d.toNat ≠ 0x7F := by
  -- Of the four characters of `\xHH`, the two digits depend on the byte.
  have hdigit : ∀ n < 16, 0x20 ≤ (hexDigit n).toNat ∧ (hexDigit n).toNat ≠ 0x7F := by decide
  rw [escapeChar] at h
  split at h
  · simp only [List.mem_cons, List.not_mem_nil, or_false, or_self] at h
    rw [h]
    decide
  split at h
  · have hb : (UInt8.ofNat c.toNat).toNat < 256 := UInt8.toNat_lt _
    simp only [hexByte, List.mem_cons, List.not_mem_nil, or_false] at h
    rcases h with rfl | rfl | rfl | rfl
    · decide
    · decide
    · exact hdigit _ (by omega)
    · exact hdigit _ (by omega)
  · next hcontrol =>
    rw [List.mem_singleton.1 h]
    omega

/-! ### Texts -/

/-- The escaped forms of characters, one behind the other, are read as the bytes of these
characters. -/
theorem unescapeBytes_flatMap (cs : List Char) :
    unescapeBytes (cs.flatMap escapeChar) = Utf8.encode cs := by
  induction cs with
  | nil => rfl
  | cons c cs ih => rw [List.flatMap_cons, unescapeBytes_escapeChar, ih, Utf8.encode_cons]

/-- Any text comes back from its escaped form. By this the policy table holds any URI, however it is
written in a dump. -/
theorem unescape_escapeLine (s : String) : unescape (escapeLine s) = s := by
  rw [unescape, escapeLine, String.toList_ofList, unescapeBytes_flatMap,
    Utf8.decodeReplacing_encode, String.ofList_toList]

/-- An escaped text has no control characters, so it is on one line and nothing is trimmed from it
but blanks of its own. -/
theorem printable_of_mem_escapeLine {s : String} {c : Char} (h : c ∈ (escapeLine s).toList) :
    0x20 ≤ c.toNat ∧ c.toNat ≠ 0x7F := by
  rw [escapeLine, String.toList_ofList] at h
  obtain ⟨d, -, hc⟩ := List.mem_flatMap.1 h
  exact printable_of_mem_escapeChar hc

end WebOfTrust.Dump
