import WebOfTrust.Json.Value
import WebOfTrust.Number.Written
import WebOfTrust.Text.Digits

/-!
# `WebOfTrust.Json.Text`: JSON as text

Values are written over several lines, two blanks deeper for each level. A list or an object without
members stays on its line. Numbers that JSON has no text for are written as null.
-/

set_option autoImplicit false

namespace WebOfTrust.Json

/-- One character of a string. Quotes, backslashes and control characters are escaped, and no
others. -/
def stringChar (c : Char) : List Char :=
  if c = '"' then ['\\', '"']
  else if c = '\\' then ['\\', '\\']
  else if c = '\n' then ['\\', 'n']
  else if c = '\r' then ['\\', 'r']
  else if c = '\t' then ['\\', 't']
  else if c.toNat = 8 then ['\\', 'b']
  else if c.toNat = 12 then ['\\', 'f']
  else if c.toNat < 0x20 then
    ['\\', 'u', '0', '0'] ++ Text.hexByte (UInt8.ofNat c.toNat)
  else [c]

/-- A string between quotes. Names of fields are written by it as well. -/
def stringText (s : String) : String :=
  String.ofList ('"' :: s.toList.flatMap stringChar ++ ['"'])

/-- A line break and the blanks at the given level. A level is two blanks. -/
def lineBreak (level : Nat) : String :=
  "\n" ++ String.ofList (List.replicate (2 * level) ' ')

/-- Members between brackets, each on its own line. Without members the brackets stand side by
side. -/
def bracketed (opening closing : String) (level : Nat) (members : List String) : String :=
  if members.isEmpty then opening ++ closing
  else
    opening ++ lineBreak (level + 1) ++ (("," ++ lineBreak (level + 1)).intercalate members) ++
      lineBreak level ++ closing

mutual

/-- The text of a value whose lines begin at the given level. The recursion goes through arrays and
objects, by `itemTexts` and `fieldTexts`. -/
def textAt (level : Nat) : Json → String
  | null => "null"
  | bool b => if b then "true" else "false"
  | integer n => Number.signedText n
  | number x => (Number.reportText (.ofFloat x)).getD "null"
  | string s => stringText s
  | array items => bracketed "[" "]" level (itemTexts (level + 1) items)
  | object fields => bracketed "\x7b" "\x7d" level (fieldTexts (level + 1) fields)

/-- The texts of the items of an array, one level deeper than their array. `bracketed` puts them
together. -/
def itemTexts (level : Nat) : List Json → List String
  | [] => []
  | item :: rest => textAt level item :: itemTexts level rest

/-- The texts of the fields of an object, each with its name before it. `bracketed` puts them
together. -/
def fieldTexts (level : Nat) : List (String × Json) → List String
  | [] => []
  | (name, value) :: rest =>
    (stringText name ++ ": " ++ textAt level value) :: fieldTexts level rest

end

/-- The text of a value. It begins at level zero. -/
def text (j : Json) : String := textAt 0 j

end WebOfTrust.Json
