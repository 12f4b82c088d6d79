/-!
# `WebOfTrust.Text.Digits`: numbers written in digits

Numbers arrive as digits of some radix with an optional plus sign in front, and have to stay below
a limit. `readNumber` reads them; `toString` of a natural number writes the decimal ones.
-/

set_option autoImplicit false

namespace WebOfTrust.Text

/-- The value of a digit, by its code point: `0`–`9`, then the letters of either case. -/
def digitValue (c : Char) : Option Nat :=
  if '0' ≤ c ∧ c ≤ '9' then some (c.toNat - '0'.toNat)
  else if 'a' ≤ c ∧ c ≤ 'z' then some (c.toNat - 'a'.toNat + 10)
  else if 'A' ≤ c ∧ c ≤ 'Z' then some (c.toNat - 'A'.toNat + 10)
  else none

/-- The value of a digit below `radix`. -/
def digitBelow (radix : Nat) (c : Char) : Option Nat :=
  (digitValue c).filter (· < radix)

/-- The number whose digits are `cs`, continued from the digits read so far. -/
def readDigits (radix : Nat) : Nat → List Char → Option Nat
  | value, [] => some value
  | value, c :: cs => do
    let digit ← digitBelow radix c
    readDigits radix (value * radix + digit) cs

/-- The number below `limit` that `cs` spells: at least one digit, after an optional `+`. -/
def readNumber (radix limit : Nat) (cs : List Char) : Option Nat :=
  let digits := match cs with
    | '+' :: rest => rest
    | cs => cs
  match digits with
  | [] => none
  | digits => (readDigits radix 0 digits).filter (· < limit)

/-- The decimal byte that `s` spells. -/
def readByte (s : String) : Option UInt8 :=
  (readNumber 10 UInt8.size s.toList).map UInt8.ofNat

/-- The decimal 32-bit word that `s` spells. -/
def readWord32 (s : String) : Option UInt32 :=
  (readNumber 10 UInt32.size s.toList).map UInt32.ofNat

/-- The decimal 64-bit word that `s` spells. -/
def readWord64 (s : String) : Option UInt64 :=
  (readNumber 10 UInt64.size s.toList).map UInt64.ofNat

/-! ### Hexadecimal digits -/

/-- Whether `c` is a hexadecimal digit of either case. -/
def isHexDigit (c : Char) : Bool :=
  (digitBelow 16 c).isSome

/-- The lower-case hexadecimal digit of a value below sixteen. `digitBelow` reads either case. -/
def hexDigit (n : Nat) : Char :=
  if n < 10 then Char.ofNat ('0'.toNat + n) else Char.ofNat ('a'.toNat + (n - 10))

/-- The two hexadecimal digits of a byte. Digests and escapes are written by it. -/
def hexByte (b : UInt8) : List Char :=
  [hexDigit (b.toNat / 16), hexDigit (b.toNat % 16)]

/-- The hexadecimal digits of a number, without leading zeros. `Nat.toDigits` gives them in lower
case. -/
def hexDigits (n : Nat) : List Char :=
  Nat.toDigits 16 n

end WebOfTrust.Text
