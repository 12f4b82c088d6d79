/-!
# `WebOfTrust.Text.Blank`: blank characters and trimming

Readers take blanks off the ends of lines and numbers. The blanks are the characters with the
Unicode property *White_Space*, a stable set of 25.

- `trimEndWhere_append_of_all`, `trimEndWhere_eq_self`: what trimming takes away and what it keeps.
-/

set_option autoImplicit false

namespace WebOfTrust.Text

/-! ### The property White_Space -/

/-- The code points with the property *White_Space*, as closed ranges. `isBlank` looks a character
up in it. -/
def blankRanges : List (Nat × Nat) :=
  [(0x09, 0x0D), (0x20, 0x20), (0x85, 0x85), (0xA0, 0xA0), (0x1680, 0x1680), (0x2000, 0x200A),
    (0x2028, 0x2029), (0x202F, 0x202F), (0x205F, 0x205F), (0x3000, 0x3000)]

/-- Whether `c` is blank. -/
def isBlank (c : Char) : Bool :=
  blankRanges.any fun (first, last) => first ≤ c.toNat && c.toNat ≤ last

/-! ### Trimming -/

/-- `cs` without the longest run at its end that satisfies `p`. -/
def trimEndWhere (p : Char → Bool) : List Char → List Char
  | [] => []
  | c :: cs =>
    match trimEndWhere p cs with
    | [] => if p c then [] else [c]
    | d :: ds => c :: d :: ds

/-- `cs` without the blanks at its end. -/
def trimEnd (cs : List Char) : List Char :=
  trimEndWhere isBlank cs

/-- `cs` without the blanks at either end. -/
def trim (cs : List Char) : List Char :=
  trimEnd (cs.dropWhile isBlank)

/-- A run that satisfies `p` disappears from the end. -/
theorem trimEndWhere_append_of_all {p : Char → Bool} {cs : List Char} (tail : List Char)
    (h : tail.all p = true) : trimEndWhere p (cs ++ tail) = trimEndWhere p cs := by
  induction cs with
  | nil =>
    induction tail with
    | nil => rfl
    | cons c tail ih => simp_all [trimEndWhere]
  | cons c cs ih => simp only [List.cons_append, trimEndWhere, ih]

/-- Nothing is taken from a text whose last character does not satisfy `p`. -/
theorem trimEndWhere_eq_self {p : Char → Bool} {cs : List Char} {c : Char} (h : p c = false) :
    trimEndWhere p (cs ++ [c]) = cs ++ [c] := by
  induction cs with
  | nil => simp [trimEndWhere, h]
  | cons d ds ih =>
    simp only [List.cons_append, trimEndWhere, ih]
    cases ds <;> rfl

end WebOfTrust.Text
