import WebOfTrust.Toml.Quotes
import WebOfTrust.Toml.Word

/-!
# `WebOfTrust.Toml.Document`: reading documents

A document is a sequence of statements, each on its own line: headers, which open a table, and
assignments, which add a field to the table that is open. Reading has two steps. The statements are
read from the text, and then carried out one after the other; a statement that contradicts earlier
ones is refused.

- `Toml.statements`: the statements of a text;
- `Toml.parse`: the document that they make.
-/

set_option autoImplicit false

namespace WebOfTrust.Toml

/-! ### Blank -/

/-- The rest behind spaces and tabs. Line breaks are not skipped. -/
def skipSpaces (cs : List Char) : List Char := cs.dropWhile isSpace

/-- Skips a comment. It stops at the line break, which `endOfLine` looks for. -/
def skipComment : List Char → List Char
  | '#' :: cs => cs.dropWhile isPlain
  | cs => cs

/-- The rest behind the end of a line, before which there may be a comment. `none` means that
something else stands there. -/
def endOfLine (cs : List Char) : Option (List Char) :=
  match skipComment (skipSpaces cs) with
  | [] => some []
  | cs => lineBreak? cs

/-- Skips spaces, line breaks and comments. Nothing can follow a comment without a line break, so
one is not skipped to its end. Arrays may be broken into lines, and are read with it. -/
def skipLines (inComment : Bool) : List Char → List Char
  | [] => []
  | c :: cs =>
    if c = '\n' then skipLines false cs
    else if c = '\r' ∧ cs.head? = some '\n' then skipLines inComment cs
    else if inComment then
      if isPlain c then skipLines true cs else c :: cs
    else if isSpace c then skipLines false cs
    else if c = '#' then skipLines true cs
    else c :: cs

/-! ### Keys -/

/-- The name of a field, behind the names of the tables that lead to it. A dotted key and a header
have the same form. -/
structure Key where
  path : List String
  name : String
  deriving DecidableEq

/-- Whether a character may stand in a name without quotes. Other characters need quotes, which
`name` reads. -/
def isNameChar (c : Char) : Bool := c.isAlphanum || c = '_' || c = '-'

/-- Reads a name. It is empty only between quotes. -/
def name (cs : List Char) : Option (String × List Char) :=
  match cs with
  | '"' :: cs => (basicString false .outside cs).map fun (name, cs) => (String.ofList name, cs)
  | '\'' :: cs => (literalString false cs).map fun (name, cs) => (String.ofList name, cs)
  | cs =>
    let name := cs.takeWhile isNameChar
    if name = [] then none else some (String.ofList name, cs.dropWhile isNameChar)

/-- The greatest number of names in a key, and of arrays and tables within each other. A document
that goes deeper is refused, as the program does. -/
def depthLimit : Nat := 79

/-- Reads a key of at most so many names, with the spaces around it. The recursion is on this
limit. -/
def key : Nat → List Char → Option (Key × List Char)
  | 0, _ => none
  | limit + 1, cs => do
    let (first, cs) ← name (skipSpaces cs)
    match skipSpaces cs with
    | '.' :: cs =>
      let (k, cs) ← key limit cs
      return (⟨first :: k.path, k.name⟩, cs)
    | cs => return (⟨[], first⟩, cs)

/-! ### Values -/

/-- Reads a value that holds no others. A date may have a time behind a blank. `word` and
`quotedString` read the two kinds of it. -/
def scalar (cs : List Char) : Option (Value × List Char) :=
  if cs.head? = some '"' ∨ cs.head? = some '\'' then
    (quotedString cs).map fun (s, cs) => (.string (String.ofList s), cs)
  else
    let first := cs.takeWhile isWordChar
    let behind := cs.dropWhile isWordChar
    let second := (behind.drop 1).takeWhile isWordChar
    if isDate first ∧ behind.head? = some ' ' ∧ second ≠ [] then
      if isTime second then
        some (.dateTime (String.ofList (first ++ ' ' :: second)),
          (behind.drop 1).dropWhile isWordChar)
      else none
    else (word first).map fun v => (v, behind)

/-- Reads the items of an array and its closing bracket; `read` reads one of them. -/
def items (read : List Char → Option (Value × List Char)) :
    Nat → List Char → Option (List Value × List Char)
  | 0, _ => none
  | fuel + 1, cs =>
    match skipLines false cs with
    -- An array may be empty, and its last item may have a comma behind it.
    | ']' :: cs => some ([], cs)
    | cs => do
      let (v, cs) ← read cs
      match skipLines false cs with
      | ']' :: cs => return ([v], cs)
      | ',' :: cs =>
        let (vs, cs) ← items read fuel cs
        return (v :: vs, cs)
      | _ => none

/-- Reads an assignment. `read` reads the value behind the equals sign. -/
def assignment (read : List Char → Option (Value × List Char)) (cs : List Char) :
    Option ((Key × Value) × List Char) := do
  let (k, cs) ← key depthLimit cs
  let (v, cs) ← read (skipSpaces (← expect '=' cs))
  return ((k, v), skipSpaces cs)

/-- Reads the assignments of a table between braces and its closing brace. The fuel is the length of
the text, so it is never used up. -/
def assignments (read : List Char → Option (Value × List Char)) :
    Nat → List Char → Option (List (Key × Value) × List Char)
  | 0, _ => none
  | fuel + 1, cs => do
    let (a, cs) ← assignment read cs
    match cs with
    | '\x7d' :: cs => return ([a], cs)
    | ',' :: cs =>
      let (as, cs) ← assignments read fuel cs
      return (a :: as, cs)
    | _ => none

/-- The fields that assignments make. `Fields.assign` refuses a key that comes twice. -/
def fieldsOf (as : List (Key × Value)) : Option Fields :=
  as.foldlM (fun fields (k, v) => Fields.assign k.path k.name v .bracketed fields) []

/-- Reads a value, in which arrays and tables stand within each other to the given depth. The
recursion is on the depth, which begins at `depthLimit`. -/
def value : Nat → List Char → Option (Value × List Char)
  | 0, cs => scalar cs
  | depth + 1, cs =>
    match cs with
    | '[' :: cs => (items (value depth) cs.length cs).map fun (vs, cs) => (.array .bracketed vs, cs)
    | '\x7b' :: cs =>
      match skipSpaces cs with
      | '\x7d' :: cs => some (.table .bracketed [], cs)
      | cs => do
        let (as, cs) ← assignments (value depth) cs.length cs
        return (.table .bracketed (← fieldsOf as), cs)
    | cs => scalar cs

/-! ### Statements -/

/-- What a line of a document says. `Draft.apply` carries one out. -/
inductive Statement where
  | table (k : Key)
  | item (k : Key)
  | assignment (k : Key) (v : Value)

/-- Reads the statements of a text, line by line. The fuel is the length of the text, as each line
takes a character at least. -/
def statements : Nat → List Char → Option (List Statement)
  | 0, _ => none
  | fuel + 1, cs =>
    match skipSpaces cs with
    | [] => some []
    | '[' :: '[' :: cs => do
      let (k, cs) ← key depthLimit cs
      let cs ← endOfLine (← expect ']' (← expect ']' cs))
      (statements fuel cs).map (.item k :: ·)
    | '[' :: cs => do
      let (k, cs) ← key depthLimit cs
      let cs ← endOfLine (← expect ']' cs)
      (statements fuel cs).map (.table k :: ·)
    | c :: cs =>
      if c ∈ ['#', '\n', '\r'] then (endOfLine (c :: cs)).bind (statements fuel)
      else do
        let ((k, v), cs) ← assignment (value depthLimit) (c :: cs)
        let cs ← endOfLine cs
        (statements fuel cs).map (.assignment k v :: ·)

/-! ### Documents -/

/-- A document up to a line, and the table that is open there. Assignments go to the table that is
`opened`. -/
structure Draft where
  fields : Fields := []
  opened : List String := []

/-- Carries out a statement. `none` is a statement that contradicts those before it. -/
def Draft.apply (d : Draft) : Statement → Option Draft
  | .table k => (d.fields.openTable k.path k.name).map fun fields => ⟨fields, k.path ++ [k.name]⟩
  | .item k => (d.fields.openItem k.path k.name).map fun fields => ⟨fields, k.path ++ [k.name]⟩
  | .assignment k v =>
    (Fields.within .passed (Fields.assign k.path k.name v) d.opened .header d.fields).map
      fun fields => { d with fields }

/-- The mark that may stand before a text. `parse` drops it. -/
def byteOrderMark : Char := '\uFEFF'

/-- Reads a document. `none` stands for a text that is no document. -/
def parse (text : String) : Option Fields := do
  let cs := match text.toList with
    | [] => []
    | c :: cs => if c = byteOrderMark then cs else c :: cs
  let draft ← (← statements (cs.length + 1) cs).foldlM Draft.apply {}
  return draft.fields

end WebOfTrust.Toml
