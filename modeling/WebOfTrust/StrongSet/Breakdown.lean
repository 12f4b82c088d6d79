import WebOfTrust.Corpus
import WebOfTrust.StatusTable
import WebOfTrust.Table

/-!
# `WebOfTrust.StrongSet.Breakdown`: keys and certifications by bucket

Keys are counted by format version, algorithm, length and year of creation, certifications by hash
algorithm, format version and level. Every table lists its preset buckets, also those that stay
empty. Of several status lines with one key id the first counts.
-/

set_option autoImplicit false

namespace WebOfTrust

/-! ### Buckets -/

/-- The least length of a bucket for keys that are longer than any single one listed. It is no
length, as `keyLengthBucket` gives it for every length above 4096. -/
def longestKeys : Nat := 9999

/-- The buckets of key lengths that a report always lists, by the least length that falls into each.
`keyLengthBucket_mem` says that none is missing. -/
def keyLengthBuckets : List Nat := [0, 1024, 1025, 2048, 2049, 4096, longestKeys]

/-- The bucket of a key length. The common lengths have their own. A length between two common ones
goes to the bucket of the gap. -/
def keyLengthBucket (bits : Nat) : Nat :=
  if bits < 1024 then 0
  else if bits = 1024 then 1024
  else if bits < 2048 then 1025
  else if bits = 2048 then 2048
  else if bits < 4096 then 2049
  else if bits = 4096 then 4096
  else longestKeys

/-- What a report calls a bucket of key lengths. A common length is its own label. -/
def keyLengthLabel (bucket : Nat) : String :=
  if bucket = 0 then "Less than 1024"
  else if bucket = 1025 then "Between 1024 and 2048"
  else if bucket = 2049 then "Between 2048 and 4096"
  else if bucket = longestKeys then "More than 4096"
  else toString bucket

/-- The first year that has its own bucket. `yearBuckets` starts there. -/
def firstYear : Nat := 1992

/-- The bucket of keys from before the first year. Dates that cannot be read are counted there as
well. -/
def yearBefore : Nat := 0

/-- The bucket of keys that are dated behind the current year. It is no year of the list as long as
the current year is before it. -/
def yearFuture : Nat := 9999

/-- The year that a date begins with, in four characters. It does not look at what follows the four
characters. -/
def yearOf (date : String) : Option Nat :=
  let digits := date.toList.take 4
  if digits.length = 4 then Text.readNumber 10 UInt32.size digits else none

/-- The bucket of a date of creation. A date without a year counts as early. `yearBucket_mem` says
that it is one of `yearBuckets`. -/
def yearBucket (date : String) (currentYear : Nat) : Nat :=
  match yearOf date with
  | none => yearBefore
  | some year =>
    if currentYear < year then yearFuture
    else if firstYear ≤ year then year
    else yearBefore

/-- What a report calls a bucket of years. A year is its own label. -/
def yearLabel (bucket : Nat) : String :=
  if bucket = yearBefore then "Before 1992"
  else if bucket = yearFuture then "In the future"
  else toString bucket

/-- The buckets of years up to the current one. A current year before `firstYear` counts as that
one. -/
def yearBuckets (currentYear : Nat) : List Nat :=
  yearBefore :: yearFuture ::
    (List.range (max currentYear firstYear + 1 - firstYear)).map (firstYear + ·)

/-- The buckets of versions that a report always lists. `versionBucket` gives no other one. -/
def versionBuckets : List Nat := [0, 2, 3, 4]

/-- What a report calls a bucket of versions. It is asked for the members of `versionBuckets`
only. -/
def versionLabel (bucket : Nat) : String :=
  if bucket = 0 then "Other" else "v" ++ toString bucket

/-- The label of a bucket that stands for one byte. Labels of algorithms and levels are given by
bytes, whereas a `Tally` has numbers. -/
def byteLabel (label : UInt8 → String) (bucket : Nat) : String := label (UInt8.ofNat bucket)

/-! ### Tables of counts -/

/-- A row of a breakdown. `γ` is `KeyCounts` or `CertificationCounts`. -/
structure BreakdownRow (γ : Type) where
  bucket : Nat
  label : String
  counts : γ
  deriving DecidableEq, Repr, Inhabited

/-- A breakdown while it is counted. It is a `Table`, so its rows come in the order of their
buckets. -/
abbrev Tally (γ : Type) := Table Nat γ

namespace Tally

variable {γ : Type}

/-- The tally with the given buckets, all of them empty. A report lists them even if nothing is
counted in them. -/
def preset [Inhabited γ] (buckets : List Nat) : Tally γ :=
  Table.ofList (buckets.map fun b => (b, default))

/-- Counts something in a bucket. `f` is what one thing more does to the counts. -/
def bump [Inhabited γ] (t : Tally γ) (bucket : Nat) (f : γ → γ) : Tally γ :=
  t.insert bucket (f ((t.find? bucket).getD default))

/-- The rows, in the order of their buckets. `label` names each bucket. -/
def rows (t : Tally γ) (label : Nat → String) : List (BreakdownRow γ) :=
  t.entries.map fun (bucket, counts) => ⟨bucket, label bucket, counts⟩

end Tally

/-- One more, where a condition holds. `List.countP` is the number that it counts up to. -/
def incrementIf (condition : Bool) (n : Nat) : Nat := if condition then n + 1 else n

/-! ### Keys -/

/-- Counts of keys in a bucket. `increment` adds one key to them. -/
structure KeyCounts where
  valid : Nat := 0
  certified : Nat := 0
  reachable : Nat := 0
  strong : Nat := 0
  deriving DecidableEq, Repr, Inhabited

/-- Counts of all keys. `KeyTotals.count` adds one key to them. -/
structure KeyTotals where
  /-- Different key ids. -/
  keys : Nat := 0
  expired : Nat := 0
  revoked : Nat := 0
  revokedByOwner : Nat := 0
  revokedByDesignatedRevoker : Nat := 0
  invalid : Nat := 0
  valid : Nat := 0
  certified : Nat := 0
  reachable : Nat := 0
  strong : Nat := 0
  deriving DecidableEq, Repr, Inhabited

/-- Counts a key by its status. A status is counted in `keys` in any case. -/
def KeyTotals.count (t : KeyTotals) (status : KeyStatus) : KeyTotals :=
  let t := { t with keys := t.keys + 1 }
  match status with
  | .expired => { t with expired := t.expired + 1 }
  | .revokedByOwner =>
    { t with revoked := t.revoked + 1, revokedByOwner := t.revokedByOwner + 1 }
  | .revokedByDesignatedRevoker =>
    { t with
      revoked := t.revoked + 1
      revokedByDesignatedRevoker := t.revokedByDesignatedRevoker + 1 }
  | .invalid => { t with invalid := t.invalid + 1 }
  | .valid => { t with valid := t.valid + 1 }
  | .certified => { t with valid := t.valid + 1, certified := t.certified + 1 }
  | .unvalidated => t

/-- Breakdowns of the keys of a key-status table. The four breakdowns are of the same keys. -/
structure KeyStatistics where
  totals : KeyTotals
  byVersion : List (BreakdownRow KeyCounts)
  byAlgorithm : List (BreakdownRow KeyCounts)
  byLength : List (BreakdownRow KeyCounts)
  byYear : List (BreakdownRow KeyCounts)
  deriving DecidableEq, Repr, Inhabited

/-- The keys counted so far. `seen` tells which ids have been counted. -/
structure KeyTally where
  currentYear : Nat
  seen : KeySet KeyId := ∅
  totals : KeyTotals := {}
  byVersion : Tally KeyCounts := .preset versionBuckets
  byAlgorithm : Tally KeyCounts := .preset (PublicKeyAlgorithm.buckets.map UInt8.toNat)
  byLength : Tally KeyCounts := .preset keyLengthBuckets
  byYear : Tally KeyCounts := .preset (yearBuckets currentYear)

namespace KeyTally

/-- What a key adds to its bucket. `incrementIf` counts each column. -/
def increment (status : KeyStatus) (reachable strong : Bool) (c : KeyCounts) : KeyCounts :=
  { valid := incrementIf status.isValid c.valid
    certified := incrementIf (status = .certified) c.certified
    reachable := incrementIf reachable c.reachable
    strong := incrementIf strong c.strong }

/-- Counts the key of a status line, unless its id has been counted. The second component tells
whether it was. All four tables are bumped with the same increment. -/
def record (t : KeyTally) (l : StatusLine) (reachable strong : Bool) : KeyTally × Bool :=
  if t.seen.contains l.keyId then (t, false)
  else
    let add := increment l.status reachable strong
    ({ t with
        seen := t.seen.add l.keyId
        totals := t.totals.count l.status
        byVersion := t.byVersion.bump (versionBucket l.version).toNat add
        byAlgorithm := t.byAlgorithm.bump l.algorithm.bucket.toNat add
        byLength := t.byLength.bump (keyLengthBucket l.bits.toNat) add
        byYear := t.byYear.bump (yearBucket l.created t.currentYear) add },
      true)

/-- The breakdowns, given the sizes of the reachable and the strong set. These two are not counted
by lines. -/
def finish (t : KeyTally) (reachable strong : Nat) : KeyStatistics :=
  { totals := { t.totals with reachable, strong }
    byVersion := t.byVersion.rows versionLabel
    byAlgorithm := t.byAlgorithm.rows (byteLabel PublicKeyAlgorithm.bucketLabel)
    byLength := t.byLength.rows keyLengthLabel
    byYear := t.byYear.rows yearLabel }

end KeyTally

/-! ### Certifications -/

/-- Counts of certifications. `increment` adds one certification to them. -/
structure CertificationCounts where
  valid : Nat := 0
  reachable : Nat := 0
  strong : Nat := 0
  deriving DecidableEq, Repr, Inhabited

/-- Breakdowns of the certifications of a corpus. The three breakdowns are of the same
certifications. -/
structure CertificationStatistics where
  totals : CertificationCounts
  byHash : List (BreakdownRow CertificationCounts)
  byVersion : List (BreakdownRow CertificationCounts)
  byLevel : List (BreakdownRow CertificationCounts)
  deriving DecidableEq, Repr, Inhabited

/-- The certifications counted so far. It starts with all buckets preset. -/
structure CertificationTally where
  totals : CertificationCounts := {}
  byHash : Tally CertificationCounts := .preset (HashAlgorithm.buckets.map UInt8.toNat)
  byVersion : Tally CertificationCounts := .preset versionBuckets
  byLevel : Tally CertificationCounts := .preset (CertificationLevel.buckets.map UInt8.toNat)
  deriving Inhabited

namespace CertificationTally

/-- What a certification adds to its bucket and to the totals. Every certification that a corpus
holds is `valid`. -/
def increment (reachable strong : Bool) (c : CertificationCounts) : CertificationCounts :=
  { valid := c.valid + 1
    reachable := incrementIf reachable c.reachable
    strong := incrementIf strong c.strong }

/-- Counts a certification. It is reachable or strong if both its ends are. The caller has found
that out. -/
def record (t : CertificationTally) (s : Signature) (reachable strong : Bool) :
    CertificationTally :=
  let add := increment reachable strong
  { totals := add t.totals
    byHash := t.byHash.bump s.hash.bucket.toNat add
    byVersion := t.byVersion.bump (versionBucket s.version).toNat add
    byLevel := t.byLevel.bump s.level.bucket.toNat add }

/-- The breakdowns, with the totals that they break down. `Tally.rows` lists the buckets. -/
def finish (t : CertificationTally) : CertificationStatistics :=
  { totals := t.totals
    byHash := t.byHash.rows (byteLabel HashAlgorithm.bucketLabel)
    byVersion := t.byVersion.rows versionLabel
    byLevel := t.byLevel.rows (byteLabel CertificationLevel.bucketLabel) }

end CertificationTally

end WebOfTrust
