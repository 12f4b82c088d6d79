import WebOfTrust.Text.Digits
import WebOfTrust.Text.Utf8

/-!
# `WebOfTrust.Dump.Escape`: escaped text

Dumps write a text field as printable ASCII. A backslash begins an escape: two hexadecimal digits
behind `\x` for one byte, `\n`, `\t`, and a second backslash for itself. A backslash that begins
none of these stands for itself. Escapes give bytes, so a character may be spread over several of
them, and the text is what the bytes spell.

- `unescape` reads such a field;
- `escapeLine` writes a text without control characters, so that it stays on one line.
-/

set_option autoImplicit false

namespace WebOfTrust.Dump

open Text

/-- The byte that two hexadecimal digits spell. `none` stands for two characters that are not both
such digits. -/
def hexPair (high low : Char) : Option UInt8 := do
  let h ← digitBelow 16 high
  let l ← digitBelow 16 low
  return UInt8.ofNat (16 * h + l)

/-- The bytes of an escaped text. An escape is a backslash with `x` and two digits, with another
backslash, or with `n` or `t`; any other character stands for its own bytes. -/
def unescapeBytes : List Char → List UInt8
  | [] => []
  | '\\' :: 'x' :: high :: low :: rest =>
    match hexPair high low with
    | some b => b :: unescapeBytes rest
    | none => Utf8.encodeChar '\\' ++ unescapeBytes ('x' :: high :: low :: rest)
  | '\\' :: '\\' :: rest => Utf8.encodeChar '\\' ++ unescapeBytes rest
  | '\\' :: 'n' :: rest => Utf8.encodeChar '\n' ++ unescapeBytes rest
  | '\\' :: 't' :: rest => Utf8.encodeChar '\t' ++ unescapeBytes rest
  | c :: rest => Utf8.encodeChar c ++ unescapeBytes rest

/-- The text that an escaped one stands for. Bytes that are no UTF-8 are replaced, as
`decodeReplacing` does it. -/
def unescape (s : String) : String :=
  String.ofList (Utf8.decodeReplacing (unescapeBytes s.toList))

/-- One character of a text that has to stay on one line. `unescapeBytes` reads each of these forms
back. -/
def escapeChar (c : Char) : List Char :=
  if c = '\\' then ['\\', '\\']
  else if c.toNat < 0x20 ∨ c.toNat = 0x7F then '\\' :: 'x' :: hexByte (UInt8.ofNat c.toNat)
  else [c]

/-- The text with its backslashes and ASCII control characters escaped. It is `escapeChar` for every
character. -/
def escapeLine (s : String) : String :=
  String.ofList (s.toList.flatMap escapeChar)

end WebOfTrust.Dump
