/-!
# `WebOfTrust.Json.Value`: JSON values

Reports are written, and settings are read, as JSON. The fields of an object keep their order.
Whole numbers and numbers with a fraction or an exponent are two kinds, because a field for a whole
number takes the first kind only.
-/

set_option autoImplicit false

namespace WebOfTrust

/-- A value of JSON. Whole numbers are kept apart from floating-point ones, and the fields of an
object keep their order. Settings are read from such values, and reports are written as one. -/
inductive Json where
  | null
  | bool (b : Bool)
  | integer (n : Int)
  | number (x : Float)
  | string (s : String)
  | array (items : List Json)
  | object (fields : List (String × Json))
  deriving Inhabited

namespace Json

/-- A natural number. It is an `integer` that is not negative. -/
def natural (n : Nat) : Json := .integer n

/-- A value, or null where there is none. `f` is the way in which the value is written. -/
def ofOption {α : Type} (f : α → Json) : Option α → Json
  | some a => f a
  | none => .null

end Json

end WebOfTrust
