/-!
# `WebOfTrust.Number.Binary64`: floating-point numbers by their bits

A table gives distances and centralities as binary64 numbers. They are kept by their bits, which
tell apart what comparison does not: the two zeros, and the signs of two NaNs. `Binary64.rank` gives
the total order of all of them, in which series are sorted.
-/

set_option autoImplicit false

namespace WebOfTrust

/-- A floating-point number, by its bits. Bits can be compared for equality, which numbers with NaNs
cannot. -/
structure Binary64 where
  bits : UInt64
  deriving DecidableEq, Repr, Inhabited

namespace Binary64

/-- The bit that holds the sign. `magnitude` is what is below it. -/
def signBit : Nat := 0x8000000000000000

/-- The bits of infinity. Every greater `magnitude` is a NaN. -/
def infinityBits : Nat := 0x7FF0000000000000

/-- The bits of the NaN that carries no payload. It is what `readBinary64` gives for the name of
it. -/
def nanBits : Nat := 0x7FF8000000000000

/-- The bit above those of the fraction, which stands for the leading digit of a significand. A
`magnitude` is divided by it to split exponent and fraction. -/
def leadingBit : Nat := 0x10000000000000

/-- The number with the given sign and the given bits below the sign. Signs are read apart from
digits. -/
def ofMagnitude (negative : Bool) (magnitude : Nat) : Binary64 :=
  ⟨UInt64.ofNat (if negative then signBit + magnitude else magnitude)⟩

/-- Whether the sign bit is set, which a negative zero has as well. `rank` and `reportText` look at
it. -/
def isNegative (x : Binary64) : Bool := signBit ≤ x.bits.toNat

/-- The bits below the sign. It grows with the absolute value of the number. -/
def magnitude (x : Binary64) : Nat := x.bits.toNat % signBit

/-- Whether the bits stand for no number. It is decided on `magnitude`, without arithmetic. -/
def isNaN (x : Binary64) : Bool := infinityBits < x.magnitude

/-- Whether the bits stand for a number that is finite. `reportText` writes only such numbers. -/
def isFinite (x : Binary64) : Bool := x.magnitude < infinityBits

/-- The number on which arithmetic works. `ofFloat` is the way back. -/
def toFloat (x : Binary64) : Float := Float.ofBits x.bits

/-- The bits of a number of arithmetic. A report stores what it computed in this form. -/
def ofFloat (x : Float) : Binary64 := ⟨x.toBits⟩

/-! ### Total order -/

/-- The place of a number in the total order: negative numbers by falling magnitude, then the others
by rising magnitude, with a NaN outside the infinity of its sign. `sort` compares by it, so NaNs
have their places. -/
def rank (x : Binary64) : Int :=
  if x.isNegative then -1 - (x.magnitude : Int) else x.magnitude

/-- The numbers in their total order. The sort is stable, which does not show, as equal ranks are
equal bits. -/
def sort (xs : List Binary64) : List Binary64 :=
  xs.mergeSort fun x y => x.rank ≤ y.rank

/-! ### Integer form of finite numbers -/

/-- A finite number without its sign, as `significand * 2 ^ exponent`. -/
structure Scaled where
  significand : Nat
  exponent : Int
  deriving DecidableEq, Repr

/-- The integer form: subnormal numbers have no implicit bit and share the least exponent. `Scaled`
is the significand with its exponent. -/
def scaled (x : Binary64) : Scaled :=
  let field : Nat := x.magnitude / leadingBit
  let fraction := x.magnitude % leadingBit
  if field = 0 then ⟨fraction, -1074⟩ else ⟨leadingBit + fraction, (field : Int) - 1075⟩

/-- Whether the next smaller number is only half as far away as the next greater one: so it is where
the exponent changes. `RoundingRange` is not symmetric there. -/
def isPowerBoundary (x : Binary64) : Bool :=
  x.magnitude % leadingBit = 0 && 1 < x.magnitude / leadingBit

end Binary64

end WebOfTrust
