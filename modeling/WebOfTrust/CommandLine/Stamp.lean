import WebOfTrust.StrongSet.ReportText
import WebOfTrust.Text.Digits

/-!
# `WebOfTrust.CommandLine.Stamp`: what tells one run from another

A run is stamped with the time at which its report is made, as a date with a time of day in
universal time, and with an identifier: the time in milliseconds, then random bits.
-/

set_option autoImplicit false

namespace WebOfTrust

/-! ### Dates -/

/-- A day in the calendar. `CalendarDay.ofEpochDay` computes it. -/
structure CalendarDay where
  year : Nat
  month : Nat
  day : Nat
  deriving DecidableEq, Repr

/-- The day that lies `days` days behind the first of January 1970. Years are counted from March, so
that a leap day is the last of its year, in eras of four hundred years. -/
def CalendarDay.ofEpochDay (days : Nat) : CalendarDay :=
  -- The first era begins on the first of March of the year zero.
  let shifted := days + 719468
  let era := shifted / 146097
  let dayOfEra := shifted % 146097
  let yearOfEra := (dayOfEra - dayOfEra / 1460 + dayOfEra / 36524 - dayOfEra / 146096) / 365
  let dayOfYear := dayOfEra - (365 * yearOfEra + yearOfEra / 4 - yearOfEra / 100)
  -- Counted from March, any five months in a row have 153 days.
  let marchMonth := (5 * dayOfYear + 2) / 153
  let month := if marchMonth < 10 then marchMonth + 3 else marchMonth - 9
  { year := yearOfEra + 400 * era + if month ≤ 2 then 1 else 0
    month
    day := dayOfYear - (153 * marchMonth + 2) / 5 + 1 }

example : CalendarDay.ofEpochDay 0 = ⟨1970, 1, 1⟩ := by decide
example : CalendarDay.ofEpochDay 11016 = ⟨2000, 2, 29⟩ := by decide
example : CalendarDay.ofEpochDay 20454 = ⟨2026, 1, 1⟩ := by decide

/-- The decimal digits of a number, at least `width` of them. -/
def paddedText (width n : Nat) : String :=
  let digits := Nat.toDigits 10 n
  String.ofList (List.replicate (width - digits.length) '0' ++ digits)

/-- A fraction of a second, with as many groups of three digits as it needs. Trailing groups of
zeros are left out, and the point with them. -/
def fractionText (nanoseconds : Nat) : String :=
  if nanoseconds = 0 then ""
  else if nanoseconds % 1000000 = 0 then "." ++ paddedText 3 (nanoseconds / 1000000)
  else if nanoseconds % 1000 = 0 then "." ++ paddedText 6 (nanoseconds / 1000)
  else "." ++ paddedText 9 nanoseconds

/-- A moment, given by the nanoseconds since the beginning of 1970. The time is UTC, as the letter
at the end tells. -/
def momentText (nanoseconds : Nat) : String :=
  let seconds := nanoseconds / 1000000000
  let day := CalendarDay.ofEpochDay (seconds / 86400)
  let time := seconds % 86400
  paddedText 4 day.year ++ "-" ++ paddedText 2 day.month ++ "-" ++ paddedText 2 day.day ++ "T" ++
    paddedText 2 (time / 3600) ++ ":" ++ paddedText 2 (time / 60 % 60) ++ ":" ++
    paddedText 2 (time % 60) ++ fractionText (nanoseconds % 1000000000) ++ "Z"

/-- The year of a moment. It is the present year of an analysis. -/
def yearOfMoment (nanoseconds : Nat) : Nat :=
  (CalendarDay.ofEpochDay (nanoseconds / 1000000000 / 86400)).year

/-! ### Identifiers -/

/-- The bytes of an identifier: six of the milliseconds, then random ones, in which the kind of the
identifier is marked. Identifiers of later moments are greater, as the time comes first. -/
def identifierBytes (milliseconds : Nat) (random : List UInt8) : List UInt8 :=
  let time := (List.range 6).map fun i => UInt8.ofNat (milliseconds >>> (8 * (5 - i)))
  let marked := random.zipIdx.map fun (b, i) =>
    if i = 0 then b &&& 0x0F ||| 0x70
    else if i = 2 then b &&& 0x3F ||| 0x80
    else b
  time ++ marked

/-- The hexadecimal digits of an identifier, in five groups. `hexByte` writes each byte. -/
def identifierText (bytes : List UInt8) : String :=
  let group (start count : Nat) : List Char := ((bytes.drop start).take count).flatMap Text.hexByte
  String.ofList (Text.join '-' [group 0 4, group 4 2, group 6 2, group 8 2, group 10 6])

/-- The stamp of a run at a moment, from ten random bytes. `Circumstances.now` supplies both. -/
def RunStamp.ofMoment (nanoseconds : Nat) (random : List UInt8) : RunStamp :=
  { runId := identifierText (identifierBytes (nanoseconds / 1000000) random)
    generatedAt := momentText nanoseconds }

end WebOfTrust
