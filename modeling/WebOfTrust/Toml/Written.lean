import WebOfTrust.Number.Written
import WebOfTrust.Text.Digits

/-!
# `WebOfTrust.Toml.Written`: settings as TOML

Settings are written as sections of fields. A string is written between the quotes that need the
least escaping: double quotes if nothing needs it, else single quotes, else three quotes of either
kind, and double quotes with escapes where no other form can hold it. A list of more than one number
has a line for each.
-/

set_option autoImplicit false

namespace WebOfTrust.Toml

/-! ### Strings -/

/-- The length of the longest run of `c`. -/
def longestRun (c : Char) (cs : List Char) : Nat :=
  (cs.foldl (fun (longest, run) d =>
    if d = c then (max longest (run + 1), run + 1) else (longest, 0)) (0, 0)).1

/-- Whether a character can only be written as an escape. Tabs and line feeds can stand between some
quotes as they are. -/
def needsEscape (c : Char) : Bool :=
  c ≠ '\t' ∧ c ≠ '\n' ∧ (c.toNat < 0x20 ∨ c.toNat = 0x7F)

/-- The quotes around a string. `Quotes.choose` decides on one of them. -/
inductive Quotes where
  | basic
  | literal
  | multilineBasic
  | multilineLiteral
  deriving DecidableEq

/-- The quotes that a string is written with. It prefers those in which nothing has to be
escaped. -/
def Quotes.choose (cs : List Char) : Quotes :=
  let hasEscapes := cs.any needsEscape
  let hasBreak := '\n' ∈ cs
  let doubles := longestRun '"' cs
  let singles := longestRun '\'' cs
  let backslash := '\\' ∈ cs
  if !hasEscapes ∧ !backslash ∧ doubles = 0 ∧ !hasBreak then .basic
  else if !hasEscapes ∧ singles = 0 ∧ !hasBreak then .literal
  else if !hasEscapes ∧ !backslash ∧ doubles ≤ 2 then .multilineBasic
  else if !hasEscapes ∧ singles ≤ 2 then .multilineLiteral
  else if hasBreak then .multilineBasic
  else .basic

/-- The quotes as they are written, before a string and behind it. They are the same on both
sides. -/
def Quotes.text : Quotes → String
  | basic => "\""
  | literal => "'"
  | multilineBasic => "\"\"\""
  | multilineLiteral => "'''"

/-- The four upper-case hexadecimal digits of a code point. `escapedChar` writes them behind its
`u`. -/
def codePointDigits (n : Nat) : List Char :=
  let digits := (Text.hexDigits n).map Char.toUpper
  List.replicate (4 - digits.length) '0' ++ digits

/-- A character between double quotes. `basicString` reads it back. -/
def escapedChar (c : Char) : List Char :=
  if c = '\\' then ['\\', '\\']
  else if c = '"' then ['\\', '"']
  else if c = '\t' then ['\\', 't']
  else if c = '\n' then ['\\', 'n']
  else if c = '\r' then ['\\', 'r']
  else if c.toNat = 8 then ['\\', 'b']
  else if c.toNat = 12 then ['\\', 'f']
  else if needsEscape c then '\\' :: 'u' :: codePointDigits c.toNat
  else [c]

/-- The characters between three double quotes, behind `run` double quotes. Two of these may stand
together, a further one is escaped. -/
def escapedLines (run : Nat) : List Char → List Char
  | [] => []
  | c :: cs =>
    if c = '\n' then c :: escapedLines 0 cs
    else if c = '"' ∧ run < 2 then c :: escapedLines (run + 1) cs
    else escapedChar c ++ escapedLines 0 cs

/-- The characters between the quotes. Only between double quotes a character is changed. -/
def Quotes.inner (cs : List Char) : Quotes → List Char
  | basic => cs.flatMap escapedChar
  | multilineBasic => escapedLines 0 cs
  | literal | multilineLiteral => cs

/-- A string with its quotes. A string with line breaks begins on a line of its own. The line break
behind the opening quotes is no part of it. -/
def stringText (s : String) : String :=
  let quotes := Quotes.choose s.toList
  let first := if '\n' ∈ s.toList then "\n" else ""
  quotes.text ++ first ++ String.ofList (quotes.inner s.toList) ++ quotes.text

/-! ### Sections -/

/-- A value that a setting can have. `Setting.text` writes each of them. -/
inductive Setting where
  | string (s : String)
  | integer (n : Int)
  | boolean (b : Bool)
  | integers (ns : List Int)

/-- A setting as it is written. An array of two or more numbers has a line for each of them.
`stringText` writes the strings. -/
def Setting.text : Setting → String
  | string s => stringText s
  | integer n => Number.signedText n
  | boolean b => if b then "true" else "false"
  | integers [] => "[]"
  | integers [n] => "[" ++ Number.signedText n ++ "]"
  | integers ns =>
    "[" ++ String.join (ns.map fun n => "\n    " ++ Number.signedText n ++ ",") ++ "\n]"

/-- A section of settings under its header. Each setting has a line of its own. -/
def sectionText (name : String) (settings : List (String × Setting)) : String :=
  "[" ++ name ++ "]\n" ++
    String.join (settings.map fun (key, v) => key ++ " = " ++ v.text ++ "\n")

/-- Sections with an empty line between each and the next. `Configuration.text` is made by it. -/
def sectionsText (sections : List (String × List (String × Setting))) : String :=
  "\n".intercalate (sections.map fun (name, settings) => sectionText name settings)

end WebOfTrust.Toml
