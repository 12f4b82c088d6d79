import WebOfTrust.Text.Split

/-!
# `WebOfTrust.Files.Path`: paths as texts

A path is a text and is kept as it was given, because messages show it. Its steps are the names
between its separators; an empty name is none.

- `Path.join`: a file in a directory;
- `Path.steps`: the names that lead to a file, one after the other;
- `Path.parents`: the directories above a file, the nearest first.
-/

set_option autoImplicit false

namespace WebOfTrust.Path

/-- The number of bytes that a name can have. A longer one is refused where it is looked up, and not
before. `FileTree.follow` refuses it. -/
def nameLimit : Nat := 255

/-- The number of bytes that a path can have, without the zero byte behind it. A longer path is
refused before any step is taken. -/
def limit : Nat := 4095

/-- Whether a path starts at the root. A relative one starts at the current directory of a
`FileTree`. -/
def isAbsolute (path : String) : Bool := path.toList.head? = some '/'

/-- Whether a path ends with a separator, so that it can lead to a directory only. `FileTree.find`
and `FileTree.create` ask for it. -/
def endsWithSeparator (path : String) : Bool := path.toList.getLast? = some '/'

/-- The path of a file that is given relative to `directory`. A path from the root stays, and an
empty directory is none. -/
def join (directory file : String) : String :=
  if isAbsolute file ∨ directory = "" then file
  else if endsWithSeparator directory then directory ++ file
  else directory ++ "/" ++ file

/-- The names in a path, in their order. Empty names, as between two separators, are no steps. A
name of one or two points is a step as well, which `follow` interprets. -/
def steps (path : String) : List String :=
  (Text.fieldsOf '/' path).filter (· ≠ "")

/-- The names in a path without those for the directory itself. At the beginning of a relative path
such a name stays, because the path would be empty without it. These are the names that `parents`
counts. -/
def names (path : String) : List String :=
  match steps path with
  | [] => []
  | first :: rest =>
    if first = "." ∧ isAbsolute path then rest.filter (· ≠ ".")
    else first :: rest.filter (· ≠ ".")

/-- The directories above the last name of a path, the nearest first. `makeDirectories` tries them
in this order and makes them in the reverse one. -/
def parents (path : String) : List String :=
  let names := names path
  let root := if isAbsolute path then "/" else ""
  ((List.range names.length).drop 1).reverse.map fun n => root ++ Text.ofFields '/' (names.take n)

/-! ### Examples -/

example : join "./data" "keystatus.csv" = "./data/keystatus.csv" := by decide
example : join "a//" "b" = "a//b" ∧ join "a" "/b" = "/b" ∧ join "a" "" = "a/" := by decide
example : parents "a//b/./c" = ["a/b", "a"] ∧ parents "./a" = ["."] ∧ parents "a" = [] := by decide
example : parents "/a/b/c" = ["/a/b", "/a"] := by decide

end WebOfTrust.Path
