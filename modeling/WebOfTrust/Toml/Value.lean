import WebOfTrust.Json.Value
import WebOfTrust.Number.Binary64

/-!
# `WebOfTrust.Toml.Value`: TOML values

A TOML document is a table. How a table came about is kept with it, because it decides what later
lines of the document may add.

- `Fields.alter`: one field changed;
- `Fields.assign`, `Fields.openTable`, `Fields.openItem`: what the lines of a document do.
-/

set_option autoImplicit false

namespace WebOfTrust.Toml

/-- How a table or an array came about. `Fields.assign` and `openTable` ask for it. -/
inductive Origin where
  /-- By a header of its own. -/
  | header
  /-- On the way to the table of another header. -/
  | passed
  /-- On the way to the last name of a dotted key. -/
  | dotted
  /-- Between brackets, which close it. -/
  | bracketed
  deriving DecidableEq, Repr

/-- A value of a document. Arrays and tables remember how they came about, which decides whether
they may be added to. `Value.toJson` forgets that. -/
inductive Value where
  | string (s : String)
  | integer (n : Int)
  | float (x : Binary64)
  | boolean (b : Bool)
  /-- A date, a time or both, as it is written. -/
  | dateTime (text : String)
  | array (origin : Origin) (items : List Value)
  | table (origin : Origin) (fields : List (String × Value))
  deriving Inhabited

/-- The fields of a table, in the order in which they came about. No name is in it twice, as `add`
refuses it. -/
abbrev Fields := List (String × Value)

namespace Fields

/-- The fields with the one under `key` changed by `f`, which is told whether there is one. -/
def alter (key : String) (f : Option Value → Option Value) : Fields → Option Fields
  | [] => (f none).map fun v => [(key, v)]
  | (k, v) :: rest =>
    if k = key then (f (some v)).map fun v => (k, v) :: rest
    else (alter key f rest).map ((k, v) :: ·)

/-- Changes the table under `path`. A missing table on the way comes about as `created`. An array of
tables stands for its last one. Dotted keys do not lead into a table that has a header. -/
def within (created : Origin) (f : Origin → Fields → Option Fields) :
    List String → Origin → Fields → Option Fields
  | [], origin, fields => f origin fields
  | key :: path, _, fields =>
    alter key (fun
      | none => (within created f path created []).map (.table created)
      | some (.table .bracketed _) => none
      | some (.table origin inner) =>
        if created = .dotted ∧ origin = .header then none
        else (within created f path origin inner).map (.table origin)
      | some (.array .header items) =>
        match items.getLast? with
        | some (.table origin inner) =>
          (within created f path origin inner).map fun inner =>
            .array .header (items.dropLast ++ [.table origin inner])
        | _ => none
      | some _ => none) fields

/-- Adds a field that is not there yet. `none` stands for a name that is taken. -/
def add (key : String) (v : Value) : Fields → Option Fields :=
  alter key fun
    | none => some v
    | some _ => none

/-- Adds a field under a dotted key. Its table came about by dotted keys, unless the key has no
dots. A table that was opened by a header is not added to in this way. -/
def assign (path : List String) (key : String) (v : Value) (origin : Origin) (fields : Fields) :
    Option Fields :=
  within .dotted (fun origin inner =>
    if path = [] ∨ origin = .dotted then add key v inner else none) path origin fields

/-- Opens the table of a header. There is none yet, or one that was passed on the way to another.
`none` stands for a table that was opened before. -/
def openTable (path : List String) (key : String) (fields : Fields) : Option Fields :=
  within .passed (fun _ inner =>
    alter key (fun
      | none => some (.table .header [])
      | some (.table .passed inner) => some (.table .header inner)
      | some _ => none) inner) path .header fields

/-- Opens a further item of the array of tables of a header. `none` stands for a name that has
another value. -/
def openItem (path : List String) (key : String) (fields : Fields) : Option Fields :=
  within .passed (fun _ inner =>
    alter key (fun
      | none => some (.array .header [.table .header []])
      | some (.array .header items) => some (.array .header (items ++ [.table .header []]))
      | some _ => none) inner) path .header fields

end Fields

/-! ### Values as JSON -/

mutual

/-- A value as JSON. A date or a time is an object without fields. Settings are read from the
result. -/
def Value.toJson : Value → Json
  | .string s => .string s
  | .integer n => .integer n
  | .float x => .number x.toFloat
  | .boolean b => .bool b
  | .dateTime _ => .object []
  | .array _ items => .array (itemsToJson items)
  | .table _ fields => .object (fieldsToJson fields)

/-- The items of an array as JSON. It is `List.map`, written out for the recursion. -/
def itemsToJson : List Value → List Json
  | [] => []
  | item :: rest => item.toJson :: itemsToJson rest

/-- The fields of a table as JSON, in their order. It is `List.map`, written out for the
recursion. -/
def fieldsToJson : List (String × Value) → List (String × Json)
  | [] => []
  | (key, v) :: rest => (key, v.toJson) :: fieldsToJson rest

end

end WebOfTrust.Toml
