/-!
# `WebOfTrust.Tagged`: the names of alternatives

Algorithms, levels, revocation kinds and statuses are written as the name of an alternative, some
with the number that it carries: `Md5`, `Private(100)`.
-/

set_option autoImplicit false

namespace WebOfTrust

/-- The name of an alternative and the number it carries. `HashAlgorithm.tagged` and its siblings
give one. -/
structure Tagged where
  name : String
  number : Option UInt8 := none
  deriving DecidableEq, Repr

/-- The name, with the number in parentheses behind it. Messages show it in this form; JSON has both
parts apart. -/
def Tagged.text (t : Tagged) : String :=
  match t.number with
  | none => t.name
  | some n => t.name ++ "(" ++ toString n.toNat ++ ")"

end WebOfTrust
