import WebOfTrust.Number.Binary64
import WebOfTrust.Text.Digits

/-!
# `WebOfTrust.Number.Decimal`: numbers read from decimal text

Tables write a floating-point number as an optional sign, digits with an optional point among them,
and an optional exponent, or as one of the names `inf`, `infinity` and `nan` in any case. What is
read is the number nearest to what is written, and of two the even one.
-/

set_option autoImplicit false

namespace WebOfTrust.Number

open Text

/-- A decimal number, `digits * 10 ^ exponent`. -/
structure Decimal where
  digits : Nat
  exponent : Int
  deriving DecidableEq, Repr

/-- Whether a character is a decimal digit. It is `digitBelow 10`. -/
def isDigit (c : Char) : Bool := (digitBelow 10 c).isSome

/-- The number that decimal digits spell. Characters that are no digits count as zero, but none is
given to it. -/
def digitsValue (cs : List Char) : Nat :=
  cs.foldl (fun n c => n * 10 + (digitValue c).getD 0) 0

/-- Takes an optional sign off; `true` stands for a minus. -/
def splitSign : List Char → Bool × List Char
  | '-' :: cs => (true, cs)
  | '+' :: cs => (false, cs)
  | cs => (false, cs)

/-- Reads the exponent behind the digits, which is zero where there is none. A sign may stand in
front of its digits. -/
def readExponent : List Char → Option Int
  | [] => some 0
  | c :: cs =>
    if c = 'e' ∨ c = 'E' then
      let (negative, digits) := splitSign cs
      if digits ≠ [] ∧ digits.all isDigit then
        some (if negative then -(digitsValue digits : Int) else digitsValue digits)
      else none
    else none

/-- Takes the digits behind a point, if there is a point. The first component is what stands behind
the point. -/
def splitFraction : List Char → List Char × List Char
  | '.' :: cs => (cs.takeWhile isDigit, cs.dropWhile isDigit)
  | cs => ([], cs)

/-- Reads a decimal number without a sign. It needs a digit on one side of its point. The result is
exact; `Decimal.nearestBits` rounds it. -/
def readDecimal (cs : List Char) : Option Decimal :=
  let whole := cs.takeWhile isDigit
  let (fraction, rest) := splitFraction (cs.dropWhile isDigit)
  if whole = [] ∧ fraction = [] then none
  else
    (readExponent rest).map fun exponent =>
      ⟨digitsValue (whole ++ fraction), exponent - fraction.length⟩

/-- The number of decimal digits of a number. With the exponent it gives the order of magnitude. -/
def digitCount (n : Nat) : Nat := (Nat.toDigits 10 n).length

/-- The bits of the number nearest to a decimal one. Numbers past the range of binary64 are told by
their order of magnitude, so that no power of ten is computed for them. The rest is a fraction,
rounded once. -/
def Decimal.nearestBits (d : Decimal) : Nat :=
  let order := d.exponent + digitCount d.digits
  if d.digits = 0 ∨ order < -400 then 0
  else if 400 < order then Binary64.infinityBits
  else if 0 ≤ d.exponent then
    (Float.ofScientific (d.digits * Nat.pow 10 d.exponent.toNat) false 0).toBits.toNat
  else (Float.ofScientific d.digits true d.exponent.natAbs).toBits.toNat

/-- Reads a floating-point number. Names of infinity and NaN are read in any case of letters. -/
def readBinary64 (s : String) : Option Binary64 :=
  let (negative, cs) := splitSign s.toList
  let name := String.ofList (cs.map Char.toLower)
  if name = "inf" ∨ name = "infinity" then
    some (.ofMagnitude negative Binary64.infinityBits)
  else if name = "nan" then
    some (.ofMagnitude negative Binary64.nanBits)
  else
    (readDecimal cs).map fun d => .ofMagnitude negative d.nearestBits

end WebOfTrust.Number
