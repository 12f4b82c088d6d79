import WebOfTrust.Text.Digits

/-!
# `WebOfTrust.Toml.Quotes`: strings

A string stands between quotes. Between double quotes a backslash begins an escape, between single
quotes it is a character like others. Between three quotes of either kind a string may have line
breaks, and one or two quotes within it. The readers here are given what follows the opening quotes;
they give the string, and the text behind its closing quotes.
-/

set_option autoImplicit false

namespace WebOfTrust.Toml

/-- Whether a character may stand in a comment or a string. Of the control characters only the tab
may. `skipComment` and the two readers of strings ask for it. -/
def isPlain (c : Char) : Bool := c = '\t' ∨ (0x20 ≤ c.toNat ∧ c.toNat ≠ 0x7F)

/-- Whether a character separates words on a line. Line breaks are treated apart, by
`lineBreak?`. -/
def isSpace (c : Char) : Bool := c = ' ' ∨ c = '\t'

/-- The rest behind a line break: a line feed, or a carriage return with a line feed. `none` stands
for any other text. -/
def lineBreak? : List Char → Option (List Char)
  | '\n' :: cs => some cs
  | '\r' :: '\n' :: cs => some cs
  | _ => none

/-! ### Escapes -/

/-- Where a character of a string stands. `basicString` goes from one to the next. -/
inductive Position where
  | outside
  /-- Behind a backslash. -/
  | escape
  /-- Among the digits of a code point, `left` of which are to come. -/
  | digits (left value : Nat)
  /-- Behind a backslash at the end of a line, in the blank that is left out. -/
  | gap (broken : Bool)
  deriving DecidableEq

/-- The character that a letter behind a backslash stands for. Code points behind `u` are read apart
from these. -/
def escaped : Char → Option Char
  | 'b' => some '\x08'
  | 't' => some '\t'
  | 'n' => some '\n'
  | 'f' => some '\x0c'
  | 'r' => some '\r'
  | '"' => some '"'
  | '\\' => some '\\'
  | _ => none

/-- The character of a code point. Surrogates are none. -/
def ofCodePoint (n : Nat) : Option Char :=
  if n < 0xD800 ∨ (0xDFFF < n ∧ n < 0x110000) then some (Char.ofNat n) else none

/-- The characters that `c` adds to a string, and the position behind it. -/
def stepOutside (multiline : Bool) (c : Char) (next : Option Char) :
    Option (List Char × Position) :=
  if c = '\\' then some ([], .escape)
  else if isPlain c then some ([c], .outside)
  else if multiline ∧ c = '\n' then some ([c], .outside)
  else if multiline ∧ c = '\r' ∧ next = some '\n' then some ([], .outside)
  else none

/-- Whether `c` is part of the blank behind a backslash at the end of a line. -/
def isGap (c : Char) (next : Option Char) : Bool :=
  isSpace c ∨ c = '\n' ∨ (c = '\r' ∧ next = some '\n')

/-- The characters that `c` adds to a string, and the position behind it. The next character is
looked at where `c` alone does not decide. -/
@[inherit_doc stepOutside]
def step (multiline : Bool) (c : Char) (next : Option Char) :
    Position → Option (List Char × Position)
  | .outside => stepOutside multiline c next
  | .escape =>
    match escaped c with
    | some e => some ([e], .outside)
    | none =>
      if c = 'u' then some ([], .digits 4 0)
      else if c = 'U' then some ([], .digits 8 0)
      else if multiline ∧ isGap c next then some ([], .gap (c = '\n'))
      else none
  | .digits left value =>
    (Text.digitBelow 16 c).bind fun digit =>
      if left = 1 then (ofCodePoint (value * 16 + digit)).map fun e => ([e], .outside)
      else some ([], .digits (left - 1) (value * 16 + digit))
  | .gap broken =>
    if isGap c next then some ([], .gap (broken || c = '\n'))
    else if broken then stepOutside multiline c next
    else none

/-! ### Strings -/

/-- The end of a string between three quotes, behind the first quote of several. Of three to five
quotes the last three close the string, and the others belong to it. `basicString` and
`literalString` share it. -/
def closing (quote : Char) (cs : List Char) : Option (List Char × List Char) :=
  let more := (cs.takeWhile (· = quote)).length
  if more < 5 then some (List.replicate (more - 2) quote, cs.drop more) else none

/-- Whether a quote with `cs` behind it ends a string between three quotes. -/
def closes (quote : Char) (cs : List Char) : Bool :=
  cs.take 2 = [quote, quote]

/-- Reads a string between double quotes. `Position` says how a character is taken. -/
def basicString (multiline : Bool) : Position → List Char → Option (List Char × List Char)
  | _, [] => none
  | position, c :: cs =>
    if c = '"' ∧ (position = .outside ∨ position = .gap true) ∧ (!multiline || closes '"' cs) then
      if multiline then closing '"' cs else some ([], cs)
    else do
      let (added, position) ← step multiline c cs.head? position
      let (text, rest) ← basicString multiline position cs
      return (added ++ text, rest)

/-- Reads a string between single quotes. Nothing is escaped in it. -/
def literalString (multiline : Bool) : List Char → Option (List Char × List Char)
  | [] => none
  | c :: cs =>
    if c = '\'' ∧ (!multiline || closes '\'' cs) then
      if multiline then closing '\'' cs else some ([], cs)
    else if isPlain c ∨ (multiline ∧ c = '\n') then
      (literalString multiline cs).map fun (text, rest) => (c :: text, rest)
    else if multiline ∧ c = '\r' ∧ cs.head? = some '\n' then literalString multiline cs
    else none

/-- Reads a string of any kind with its quotes. A line break behind three opening quotes is no part
of it. The four kinds are told apart by their first quotes. -/
def quotedString : List Char → Option (List Char × List Char)
  | '"' :: '"' :: '"' :: cs => basicString true .outside ((lineBreak? cs).getD cs)
  | '"' :: cs => basicString false .outside cs
  | '\'' :: '\'' :: '\'' :: cs => literalString true ((lineBreak? cs).getD cs)
  | '\'' :: cs => literalString false cs
  | _ => none

end WebOfTrust.Toml
