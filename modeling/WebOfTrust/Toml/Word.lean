import WebOfTrust.Number.Decimal
import WebOfTrust.Toml.Value

/-!
# `WebOfTrust.Toml.Word`: numbers, dates and truth values

A value that stands between no quotes or brackets is a word: a run of letters, digits, signs,
points, colons and underscores. The form of the whole word decides what it is.
-/

set_option autoImplicit false

namespace WebOfTrust.Toml

open Number

/-- Whether a character may stand in a word. `scalar` takes such characters together, before it
looks at what they are. -/
def isWordChar (c : Char) : Bool := c.isAlphanum || c ∈ ['_', '+', '-', '.', ':']

/-! ### Dates and times -/

/-- The number that the first `n` characters spell, which are digits, and the rest. -/
def fixedDigits (n : Nat) (cs : List Char) : Option (Nat × List Char) :=
  let digits := cs.take n
  if digits.length = n ∧ digits.all isDigit then some (digitsValue digits, cs.drop n) else none

/-- The rest behind a character. `none` stands for any other text. -/
def expect (c : Char) : List Char → Option (List Char)
  | d :: cs => if d = c then some cs else none
  | [] => none

/-- The number of days in a month. `date` compares the day with it. -/
def daysIn (year month : Nat) : Nat :=
  if month = 2 then
    if year % 4 = 0 ∧ (year % 100 ≠ 0 ∨ year % 400 = 0) then 29 else 28
  else if month ∈ [4, 6, 9, 11] then 30
  else 31

/-- The rest behind a date. `none` stands for a text that does not begin with one. -/
def date (cs : List Char) : Option (List Char) := do
  let (year, cs) ← fixedDigits 4 cs
  let (month, cs) ← fixedDigits 2 (← expect '-' cs)
  let (day, cs) ← fixedDigits 2 (← expect '-' cs)
  if 1 ≤ month ∧ month ≤ 12 ∧ 1 ≤ day ∧ day ≤ daysIn year month then some cs else none

/-- The rest behind hours and minutes. An offset has the same form. -/
def hourMinute (cs : List Char) : Option (List Char) := do
  let (hour, cs) ← fixedDigits 2 cs
  let (minute, cs) ← fixedDigits 2 (← expect ':' cs)
  if hour < 24 ∧ minute < 60 then some cs else none

/-- The rest behind a time of day. A second may be a leap second and have a fraction. `hourMinute`
reads what is in front of the second. -/
def timeOfDay (cs : List Char) : Option (List Char) := do
  let (second, cs) ← fixedDigits 2 (← expect ':' (← hourMinute cs))
  if second ≤ 60 then
    match cs with
    | '.' :: cs => if cs.takeWhile isDigit = [] then none else some (cs.dropWhile isDigit)
    | cs => some cs
  else none

/-- Whether a text is an offset from universal time, or nothing. It is the rest behind
`timeOfDay`. -/
def isOffset : List Char → Bool
  | [] => true
  | ['Z'] => true
  | ['z'] => true
  | sign :: cs => (sign = '+' ∨ sign = '-') ∧ hourMinute cs = some []

/-- Whether a text is a time of day, with or without an offset. A time with an offset stands behind
a date only. -/
def isTime (cs : List Char) : Bool := (timeOfDay cs).any isOffset

/-- Whether a word is a date. `scalar` asks whether a time may follow. -/
def isDate (cs : List Char) : Bool := date cs = some []

/-- Whether a word is a date, a time of day, or a date with a time behind it. Its value is not used,
so none is computed. -/
def isDateTime (cs : List Char) : Bool :=
  timeOfDay cs = some [] ||
    match date cs with
    | some [] => true
    | some (c :: cs) => (c = 'T' ∨ c = 't') ∧ isTime cs
    | none => false

/-! ### Numbers -/

/-- Takes out the underscores of a number. Each of them stands between two digits. `none` stands for
an underscore at another place. -/
def ungroup (isDigit : Char → Bool) : List Char → Option (List Char)
  | [] => none
  | [c] => if isDigit c then some [c] else none
  | c :: d :: cs =>
    if isDigit c then
      (if d = '_' then ungroup isDigit cs else ungroup isDigit (d :: cs)).map (c :: ·)
    else none

/-- The decimal digits of a whole number; none but zero begins with a zero. `ungroup` has removed
the underscores. -/
def wholeDigits (cs : List Char) : Option (List Char) :=
  (ungroup isDigit cs).filter fun digits => digits = ['0'] ∨ digits.head? ≠ some '0'

/-- A whole number that 64 bits can hold. `none` is an overflow, which refuses the document. -/
def wholeNumber (n : Int) : Option Int :=
  if -0x8000000000000000 ≤ n ∧ n < 0x8000000000000000 then some n else none

/-- Reads digits to the given radix. These numbers have no sign. -/
def radixNumber (radix : Nat) (cs : List Char) : Option Int := do
  let digits ← ungroup (fun c => (Text.digitBelow radix c).isSome) cs
  wholeNumber (← Text.readDigits radix 0 digits)

/-- Reads a whole number. `radixNumber` reads those with a prefix. -/
def integer (cs : List Char) : Option Int :=
  match cs with
  | '0' :: 'x' :: cs => radixNumber 16 cs
  | '0' :: 'o' :: cs => radixNumber 8 cs
  | '0' :: 'b' :: cs => radixNumber 2 cs
  | cs =>
    let (negative, digits) := splitSign cs
    (wholeDigits digits).bind fun digits =>
      wholeNumber (if negative then -(digitsValue digits : Int) else digitsValue digits)

/-- Whether a character may stand among grouped digits. `floatTail` takes such characters together,
for `ungroup` to check. -/
def isGrouped (c : Char) : Bool := isDigit c || c = '_'

/-- Reads what follows the point and the exponent sign of a number with at least one of them, as
digits without their underscores. `none` stands for a number that has neither. -/
def floatTail (cs : List Char) : Option (List Char) :=
  match cs with
  | '.' :: cs => do
    let fraction ← ungroup isDigit (cs.takeWhile isGrouped)
    let exponent ← exponentOf (cs.dropWhile isGrouped)
    return '.' :: fraction ++ exponent
  | [] => none
  | cs => exponentOf cs
where
  /-- An exponent, or nothing. -/
  exponentOf : List Char → Option (List Char)
    | [] => some []
    | c :: cs =>
      if c = 'e' ∨ c = 'E' then
        let (negative, digits) := splitSign cs
        (ungroup isDigit digits).map fun digits =>
          'e' :: (if negative then ['-'] else []) ++ digits
      else none

/-- Reads a floating-point number. One that is too great is refused. `Number.readBinary64` rounds
it. -/
def float (cs : List Char) : Option Binary64 := do
  let (negative, unsigned) := splitSign cs
  let sign := if negative then ['-'] else []
  if unsigned = ['i', 'n', 'f'] ∨ unsigned = ['n', 'a', 'n'] then
    readBinary64 (String.ofList (sign ++ unsigned))
  else
    let whole ← wholeDigits (unsigned.takeWhile isGrouped)
    let tail ← floatTail (unsigned.dropWhile isGrouped)
    let x ← readBinary64 (String.ofList (sign ++ whole ++ tail))
    if x.isFinite ∨ negative then some x else none

/-! ### Words -/

/-- Reads a word. `none` stands for a word that is no value. -/
def word (cs : List Char) : Option Value :=
  if cs = ['t', 'r', 'u', 'e'] then some (.boolean true)
  else if cs = ['f', 'a', 'l', 's', 'e'] then some (.boolean false)
  else if isDateTime cs then some (.dateTime (String.ofList cs))
  else (float cs).map .float <|> (integer cs).map .integer

end WebOfTrust.Toml
