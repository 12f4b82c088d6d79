import WebOfTrust.Text.Digits
import WebOfTrust.Text.Hidden

/-!
# `WebOfTrust.Text.Quoted`: quoted text in messages

Messages quote the text that they complain about between double quotes. The quote and the backslash
are escaped by a backslash, the common control characters have letters, and every other hidden
character is written by its code point.
-/

set_option autoImplicit false

namespace WebOfTrust.Text

/-- One character of a quoted text. `isHidden` decides which characters are given by their code
points. -/
def quotedChar (c : Char) : List Char :=
  if c = '"' then ['\\', '"']
  else if c = '\\' then ['\\', '\\']
  else if c = '\n' then ['\\', 'n']
  else if c = '\r' then ['\\', 'r']
  else if c = '\t' then ['\\', 't']
  else if c.toNat = 0 then ['\\', '0']
  else if isHidden c then ['\\', 'u', '\x7b'] ++ hexDigits c.toNat ++ ['\x7d']
  else [c]

/-- `s` between double quotes. -/
def quoted (s : String) : String :=
  String.ofList ('"' :: s.toList.flatMap quotedChar ++ ['"'])

end WebOfTrust.Text
