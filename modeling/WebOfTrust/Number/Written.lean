import WebOfTrust.Number.Shortest

/-!
# `WebOfTrust.Number.Written`: numbers as reports write them

Reports hold numbers with the fewest digits that read back. A number between a hundred-thousandth
and ten to the sixteenth is written by position, with at least one digit on each side of its point;
a smaller or greater one is written with an exponent, which has a sign in any case. Summaries hold
numbers with a fixed count of decimal places, rounded to nearest, a tie to the even neighbour.
-/

set_option autoImplicit false

namespace WebOfTrust.Number

/-- The form of numbers in a report. Outside of these orders a number is written with an
exponent. -/
structure PointFormat where
  /-- The least and the greatest order of magnitude that is written by position. -/
  leastOrder : Int
  greatestOrder : Int

/-- Orders of magnitude from -4 to 16 are written by position. It is the format of the JSON
writer. -/
def reportFormat : PointFormat := ⟨-4, 16⟩

/-- The digits of a number as text. It is `Nat.toDigits` in base ten. -/
def digitsText (n : Nat) : String := String.ofList (Nat.toDigits 10 n)

/-- A whole number, with a sign if it is negative. JSON and TOML write their integers by it. -/
def signedText (n : Int) : String :=
  if n < 0 then "-" ++ digitsText n.natAbs else digitsText n.natAbs

/-- A whole number, with a sign in any case. `PointFormat.write` puts it behind the letter. -/
def exponentText (n : Int) : String :=
  (if n < 0 then "-" else "+") ++ digitsText n.natAbs

/-- A run of zeros, which fills up the places between a number and its point. `PointFormat.write`
needs them on either side. -/
def zeros (n : Nat) : String := String.ofList (List.replicate n '0')

/-- Writes a positive decimal number without trailing zeros. `d` is `Decimal.trimmed` before. -/
def PointFormat.write (f : PointFormat) (d : Decimal) : String :=
  let digits := Nat.toDigits 10 d.digits
  let order := digits.length + d.exponent
  -- A whole number.
  if 0 ≤ d.exponent ∧ order ≤ f.greatestOrder then
    String.ofList digits ++ zeros d.exponent.toNat ++ ".0"
  -- Digits on both sides of the point.
  else if 0 < order ∧ order ≤ f.greatestOrder then
    String.ofList (digits.take order.toNat) ++ "." ++ String.ofList (digits.drop order.toNat)
  -- Zeros between the point and the first digit.
  else if f.leastOrder ≤ order ∧ order ≤ 0 then
    "0." ++ zeros order.natAbs ++ String.ofList digits
  else
    -- One digit before the point, and the rest of the order in the exponent.
    let fraction := digits.drop 1
    String.ofList (digits.take 1) ++
      (if fraction = [] then "" else "." ++ String.ofList fraction) ++ "e" ++
        exponentText (order - 1)

/-- A finite number as reports write it; nothing for the others. `shortest` finds the digits. -/
def reportText (x : Binary64) : Option String :=
  if x.isFinite then
    let text := if x.magnitude = 0 then "0.0" else reportFormat.write (shortest x).trimmed
    some (if x.isNegative then "-" ++ text else text)
  else none

/-- `num / den`, rounded to a whole number; a tie goes to the even neighbour. -/
def roundDiv (num den : Nat) : Nat :=
  let rest := 2 * (num % den)
  let below := num / den
  if rest < den ∨ (rest = den ∧ below % 2 = 0) then below else below + 1

/-- A number with `places` digits behind its point. -/
def fixedText (places : Nat) (x : Binary64) : String :=
  if x.isNaN then "NaN"
  else
    let text :=
      if x.isFinite then
        let s := x.scaled
        let unit := Nat.pow 10 places
        let value := Fraction.ofPower (s.significand * unit) 2 s.exponent
        let units := roundDiv value.num value.den
        let fraction := Nat.toDigits 10 (units % unit)
        digitsText (units / unit) ++ "." ++ zeros (places - fraction.length) ++
          String.ofList fraction
      else "inf"
    if x.isNegative then "-" ++ text else text

end WebOfTrust.Number
