import WebOfTrust.Number.Decimal

/-!
# `WebOfTrust.Number.Shortest`: the fewest digits that read back

A finite number is written with the fewest decimal digits that no other number is nearer to; of
several such texts the nearest to the number is taken, and of two at one distance the one with the
even last digit. The search goes through the decimal grids with one digit, two digits and so on, and
tests the two points of the grid beside the number. All arithmetic is on natural numbers.
-/

set_option autoImplicit false

namespace WebOfTrust.Number

/-- A positive fraction. It need not be in lowest terms. -/
structure Fraction where
  num : Nat
  den : Nat

/-- `n * b ^ e`, for an exponent of either sign. -/
def Fraction.ofPower (n b : Nat) (e : Int) : Fraction :=
  if 0 ≤ e then ⟨n * Nat.pow b e.toNat, 1⟩ else ⟨n, Nat.pow b e.natAbs⟩

/-- The exponent `e` for which `10 ^ (e - 1) ≤ x < 10 ^ e`, for a positive `x`. -/
def Fraction.decimalOrder (x : Fraction) : Int :=
  if x.den ≤ x.num then digitCount (x.num / x.den)
  else
    -- The inverse has a whole part, whose digits tell the order up to one.
    let places := digitCount (x.den / x.num) - 1
    if x.num * Nat.pow 10 places < x.den then -places else 1 - places

/-- The numbers that round to a given one, in quarters of the step of its significand: the number
itself and the bounds, which belong to the range if the significand is even. A decimal number within
it is read back as `value`. -/
structure RoundingRange where
  low : Nat
  value : Nat
  high : Nat
  closed : Bool
  exponent : Int

/-- The range of the numbers that round to `x`. -/
def roundingRange (x : Binary64) : RoundingRange :=
  let s := x.scaled
  let value := 4 * s.significand
  ⟨value - (if x.isPowerBoundary then 1 else 2), value, value + 2, s.significand % 2 = 0,
    s.exponent - 2⟩

/-- Whether the decimal number `digits * 10 ^ exponent` lies in the range. -/
def RoundingRange.contains (r : RoundingRange) (d : Decimal) : Bool :=
  let unit := Fraction.ofPower 1 2 r.exponent
  let point := Fraction.ofPower d.digits 10 d.exponent
  -- Both sides are brought to one denominator.
  let scaled := point.num * unit.den
  let step := point.den * unit.num
  if r.closed then r.low * step ≤ scaled && scaled ≤ r.high * step
  else r.low * step < scaled && scaled < r.high * step

/-- The better point of the grid `10 ^ exponent` beside the number, if one is in its range. -/
def RoundingRange.pick (r : RoundingRange) (exponent : Int) : Option Decimal :=
  let unit := Fraction.ofPower 1 2 r.exponent
  let grid := Fraction.ofPower 1 10 exponent
  -- The number is `num / den` steps of the grid.
  let num := r.value * unit.num * grid.den
  let den := unit.den * grid.num
  let below : Decimal := ⟨num / den, exponent⟩
  let above : Decimal := ⟨num / den + 1, exponent⟩
  let rest := 2 * (num % den)
  let nearer := if rest < den ∨ (rest = den ∧ below.digits % 2 = 0) then [below, above]
    else [above, below]
  nearer.find? r.contains

/-- The fewest digits that read back as the finite positive number `x`. Seventeen always do. -/
def shortest (x : Binary64) : Decimal :=
  let r := roundingRange x
  let order := (Fraction.ofPower r.value 2 r.exponent).decimalOrder
  ((List.range 17).findSome? fun places : Nat =>
    r.pick (order - 1 - places)).getD ⟨0, 0⟩

/-- A decimal number without the zeros at the end of its digits. Its exponent grows by as many. -/
def Decimal.trimmed (d : Decimal) : Decimal :=
  let zeros := ((Nat.toDigits 10 d.digits).reverse.takeWhile (· = '0')).length
  if d.digits = 0 then d else ⟨d.digits / Nat.pow 10 zeros, d.exponent + zeros⟩

end WebOfTrust.Number
