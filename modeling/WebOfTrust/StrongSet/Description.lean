import WebOfTrust.Number.Binary64

/-!
# `WebOfTrust.StrongSet.Description`: a series in ten numbers

A series of numbers is described by its size, its ends, its mean, variance, skewness and kurtosis,
and its quartiles. The variance is the unbiased one of a sample; skewness and kurtosis are the
biased estimators, the kurtosis counted from that of a normal distribution. A series without
variance has neither. Quartiles interpolate between the two nearest ranks.
-/

set_option autoImplicit false

namespace WebOfTrust

/-- The description of a series. `min` and `max` are members of the series, so they are given by
their bits; the rest is computed. -/
structure Description where
  count : Nat
  min : Binary64
  max : Binary64
  mean : Float
  variance : Float
  skewness : Float
  kurtosis : Float
  firstQuartile : Float
  median : Float
  thirdQuartile : Float
  deriving Inhabited

/-- A count as a floating-point number. Counts of 64 bits are rounded to 53 digits. -/
def floatOfCount (n : Nat) : Float := (UInt64.ofNat n).toFloat

/-- The sum of a series, in its order. The empty sum is the zero that changes no number it is added
to, which is the negative one. Floating-point addition depends on the order, so it is fixed here. -/
def floatSum (xs : List Float) : Float := xs.foldl (· + ·) (-0.0)

/-- The number below which `percent` of an ascending series lies. -/
def percentile (sorted : List Binary64) (percent : Float) : Float :=
  let rank := percent / 100 * floatOfCount (sorted.length - 1)
  -- The two ranks coincide where the rank is whole.
  let lower := rank.floor.toUInt64
  let upper := rank.ceil.toUInt64
  let fraction := rank - lower.toFloat
  let atRank (i : UInt64) : Float := (sorted.getD i.toNat default).toFloat
  atRank lower + (atRank upper - atRank lower) * fraction

/-- The description of a series that has a first member. The extremes and the percentiles are taken
from the sorted series. -/
def describeFrom (first : Binary64) (rest : List Binary64) : Description :=
  let series := first :: rest
  let n := floatOfCount series.length
  let xs := series.map Binary64.toFloat
  let sorted := Binary64.sort series
  let mean := floatSum xs / n
  let deviations := xs.map (· - mean)
  let second := floatSum (deviations.map fun d => d * d) / n
  let third := floatSum (deviations.map fun d => d * d * d) / n
  let fourth := floatSum (deviations.map fun d => (d * d) * (d * d)) / n
  let hasShape := second > 0
  { count := series.length
    min := sorted.headD first
    max := sorted.getLastD first
    mean
    variance := if series.length > 1 then second * n / (n - 1) else 0
    skewness := if hasShape then third / second.pow 1.5 else 0
    kurtosis := if hasShape then fourth / (second * second) - 3 else 0
    firstQuartile := percentile sorted 25
    median := percentile sorted 50
    thirdQuartile := percentile sorted 75 }

/-- The description of a series, which an empty one does not have. `none` is written as `null` in a
report. -/
def describe : List Binary64 → Option Description
  | [] => none
  | first :: rest => some (describeFrom first rest)

/-- Only an empty series has no description. So a report tells whether a set is empty. -/
theorem describe_eq_none_iff {series : List Binary64} : describe series = none ↔ series = [] := by
  cases series <;> simp [describe]

/-- A description counts the members of its series. Repetitions count, as a series is a list. -/
theorem count_of_describe {series : List Binary64} {d : Description}
    (h : describe series = some d) :
    d.count = series.length := by
  cases series with
  | nil => simp [describe] at h
  | cons first rest => cases h; rfl

end WebOfTrust
