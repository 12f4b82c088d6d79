import Mathlib.Algebra.BigOperators.Group.Finset.Piecewise
import Mathlib.Algebra.GroupWithZero.Nat
import WebOfTrust.Proofs.Table
import WebOfTrust.StrongSet.Breakdown

/-!
# `WebOfTrust.Proofs.StrongSet.Tally`: a tally is what it counts

A tally starts with its preset buckets and is bumped for one thing after the other, in the bucket
into which the thing falls. A bucket that is bumped comes into being if the tally does not have it.
So a tally is known by its buckets and by what has fallen into each of them (`Tally.Counts`), as
long as nothing falls beside the preset ones. All else about it follows from that: its rows are the
buckets, its columns sum to the number of all things, and the order of the things is forgotten.

Nothing does fall beside them. Numbers outside of a registry share a bucket, and so do private ones,
lengths have a bucket up to infinity, and the years from the first one on are listed up to the year
behind which dates lie in the future.

- `Tally.counts_preset`, `Tally.Counts.bump`: what is counted;
- `Tally.Counts.eq_of_perm`: in any order;
- `Tally.Counts.listsBuckets`, `Tally.Counts.columnSum_rows`: the rows of a breakdown;
- `HashAlgorithm.bucket_mem`, `yearBucket_mem` and their like: preset buckets.
-/

set_option autoImplicit false

namespace WebOfTrust

/-- A breakdown lists each of its `buckets` once, in ascending order, and no other. -/
structure ListsBuckets {γ : Type} (buckets : List Nat) (rows : List (BreakdownRow γ)) : Prop where
  /-- Strictly ascending buckets come once each. -/
  ascending : (rows.map BreakdownRow.bucket).Pairwise (· < ·)
  /-- A bucket is listed even if nothing falls into it. -/
  exact : ∀ b, b ∈ rows.map BreakdownRow.bucket ↔ b ∈ buckets

/-- The sum of a column over all rows, where `column` picks the column out of the counts. -/
def columnSum {γ : Type} (column : γ → Nat) (rows : List (BreakdownRow γ)) : Nat :=
  (rows.map fun r => column r.counts).sum

namespace Tally

variable {ι γ : Type} {buckets : List Nat} {bucket : ι → Nat} {count : List ι → γ}
  {xs ys : List ι} {x : ι} {t t' : Tally γ}

/-- The buckets are the given ones, and each has the counts of the things that fall into it. The
things are whatever is counted, keys or certifications. They are counted by `count`, which takes the
list of those in one bucket. -/
def Counts (buckets : List Nat) (bucket : ι → Nat) (count : List ι → γ) (xs : List ι)
    (t : Tally γ) : Prop :=
  ∀ b, t.find? b = if b ∈ buckets then some (count (xs.filter fun x => bucket x = b)) else none

/-- The order in which things are counted does not matter. Tallies are tables, and equal if they
find the same. The hypothesis `hcount` says that `count` does not look at the order. -/
theorem Counts.eq_of_perm (h : Counts buckets bucket count xs t)
    (h' : Counts buckets bucket count ys t') (hperm : xs.Perm ys)
    (hcount : ∀ {xs ys : List ι}, xs.Perm ys → count xs = count ys) : t = t' :=
  Table.ext_find? fun b => by rw [h, h', hcount (hperm.filter _)]

/-! ### Things one by one -/

section Bumps

variable [Inhabited γ]

/-- A `preset` tally has its buckets, each with the counts of nothing, and no other key. -/
theorem find?_preset (buckets : List Nat) (b : Nat) :
    (preset buckets : Tally γ).find? b = if b ∈ buckets then some default else none := by
  have insertions (t : Tally γ) :
      ((buckets.map fun b => (b, (default : γ))).foldl (fun t p => t.insert p.1 p.2) t).find? b
        = if b ∈ buckets then some default else t.find? b := by
    induction buckets generalizing t with
    | nil => rfl
    | cons b' buckets ih =>
      rw [List.map_cons, List.foldl_cons, ih, Table.find?_insert]
      by_cases h : b = b' <;> simp [h]
  exact insertions ∅

/-- A bump changes one bucket. It would add one that is missing. `Counts.bump` excludes that by the
hypothesis on buckets. -/
theorem find?_bump (t : Tally γ) (bucket b : Nat) (f : γ → γ) :
    (t.bump bucket f).find? b
      = if b = bucket then some (f ((t.find? bucket).getD default)) else t.find? b :=
  Table.find?_insert t bucket b _

/-- Nothing has been counted in a `preset` tally, provided that `count` of nothing is the
default. -/
theorem counts_preset (hcount : count [] = default) :
    Counts buckets bucket count [] (preset buckets) := by
  intro b
  rw [find?_preset, List.filter_nil, hcount]

/-- One more thing is counted in its bucket and nowhere else. The hypothesis `hcount` says that `f`
is what one thing more does to counts. -/
theorem Counts.bump (h : Counts buckets bucket count xs t) (hx : bucket x ∈ buckets)
    {f : γ → γ} (hcount : ∀ ys, count (ys ++ [x]) = f (count ys)) :
    Counts buckets bucket count (xs ++ [x]) (t.bump (bucket x) f) := by
  intro b
  rw [find?_bump, List.filter_append, h, h]
  by_cases hb : b = bucket x
  · subst hb
    simp [hx, hcount]
  · simp [hb, Ne.symm hb]

end Bumps

/-! ### Rows -/

/-- The rows come in the order of the buckets, which are the keys of the table. -/
theorem map_bucket_rows (t : Tally γ) (label : Nat → String) :
    (t.rows label).map BreakdownRow.bucket = t.keys := by
  rw [rows, List.map_map]
  rfl

/-- The rows of a tally list its `buckets`, as the keys of a `Table` are ascending. -/
theorem Counts.listsBuckets (h : Counts buckets bucket count xs t) (label : Nat → String) :
    ListsBuckets buckets (t.rows label) := by
  refine ⟨?_, fun b => ?_⟩
  · rw [map_bucket_rows, Table.keys, List.pairwise_map]
    exact t.ascending.imp Nat.compare_eq_lt.1
  · rw [map_bucket_rows, Table.mem_keys_iff, Table.mem_iff, h]
    split <;> simp_all

/-- A row has the counts of the things whose `bucket` is the one of the row. -/
theorem Counts.counts_of_mem_rows (h : Counts buckets bucket count xs t) {label : Nat → String}
    {r : BreakdownRow γ} (hr : r ∈ t.rows label) :
    r.counts = count (xs.filter fun x => bucket x = r.bucket) := by
  obtain ⟨⟨b, c⟩, hentry, rfl⟩ := List.mem_map.1 hr
  have hfound := h b
  rw [Table.mem_entries_iff.1 hentry] at hfound
  split at hfound
  · exact Option.some.inj hfound
  · cases hfound

/-- What falls into different buckets is counted apart, so the counts of all buckets add up. The
induction is on `xs`, where one thing more is in just one bucket. -/
theorem sum_countP_filter {ks : List Nat} (hnodup : ks.Nodup) {p : ι → Bool}
    (hks : ∀ x ∈ xs, bucket x ∈ ks) :
    (ks.map fun k => (xs.filter fun x => bucket x = k).countP p).sum = xs.countP p := by
  induction xs with
  | nil => simp
  | cons x xs ih =>
    have hrest := ih fun y hy => hks y (List.mem_cons_of_mem _ hy)
    have hcount : ∀ k, ((x :: xs).filter fun x => bucket x = k).countP p
        = (xs.filter fun x => bucket x = k).countP p + if bucket x = k ∧ p x then 1 else 0 := by
      intro k
      rw [List.filter_cons]
      by_cases hk : bucket x = k <;> simp [hk, List.countP_cons]
    -- One of the buckets is the one of `x`.
    have hone : (ks.map fun k => if bucket x = k ∧ p x then 1 else 0).sum
        = if p x then 1 else 0 := by
      rw [← List.sum_toFinset _ hnodup]
      cases p x <;> simp [hks x List.mem_cons_self]
    simp only [hcount, List.sum_map_add, hrest, hone, List.countP_cons]

/-- If a column counts the things with property `p`, its sum over the rows is the number of all of
them with `p`. `hbuckets` says that none is outside the buckets. -/
theorem Counts.columnSum_rows (h : Counts buckets bucket count xs t) (column : γ → Nat)
    (label : Nat → String) {p : ι → Bool} (hcolumn : ∀ ys, column (count ys) = ys.countP p)
    (hbuckets : ∀ x ∈ xs, bucket x ∈ buckets) : columnSum column (t.rows label) = xs.countP p := by
  -- The rows are replaced by their buckets, of which none comes twice.
  have hcounts : (t.rows label).map (fun r => column r.counts)
      = t.keys.map fun b => (xs.filter fun x => bucket x = b).countP p := by
    rw [← map_bucket_rows t label, List.map_map]
    refine List.map_congr_left fun r hr => ?_
    rw [h.counts_of_mem_rows hr, hcolumn]
    rfl
  rw [columnSum, hcounts]
  refine sum_countP_filter t.nodup_keys fun x hx => ?_
  rw [Table.mem_keys_iff, Table.mem_iff, h, if_pos (hbuckets x hx)]
  rfl

end Tally

/-! ### Preset buckets -/

/-- A hash algorithm that is known under its number has a bucket in every report. One that is not
known under it does not come from a file. -/
theorem HashAlgorithm.bucket_mem {h : HashAlgorithm} (hread : ofByte h.toByte = h) :
    h.bucket.toNat ∈ buckets.map UInt8.toNat := by
  refine List.mem_map_of_mem ?_
  rw [← hread]
  fun_cases ofByte h.toByte with
  | case4 _ _ _ hreserved =>
    -- Each reserved number is a bucket of its own.
    have hnumber : h.toByte = 4 ∨ h.toByte = 5 ∨ h.toByte = 6 ∨ h.toByte = 7 := by grind
    rcases hnumber with hn | hn | hn | hn <;> rw [hn] <;> decide
  | _ => simp [bucket, buckets, toByte, privateBucket, unknownBucket]

/-- An algorithm of keys has a bucket in every report, under the same condition as in
`HashAlgorithm.bucket_mem`. -/
theorem PublicKeyAlgorithm.bucket_mem {a : PublicKeyAlgorithm} (hread : ofByte a.toByte = a) :
    a.bucket.toNat ∈ buckets.map UInt8.toNat := by
  refine List.mem_map_of_mem ?_
  rw [← hread]
  fun_cases ofByte a.toByte <;> simp [bucket, buckets, toByte, privateBucket, unknownBucket]

/-- A level has a bucket in any case, as all unknown ones share one. So no condition is needed
here. -/
theorem CertificationLevel.bucket_mem (level : CertificationLevel) :
    level.bucket.toNat ∈ buckets.map UInt8.toNat := by
  refine List.mem_map_of_mem ?_
  cases level <;> simp [bucket, code, buckets]

/-- Every version has a bucket: its own, or the one of all others. `versionBuckets` lists both
kinds. -/
theorem versionBucket_mem (version : UInt8) : (versionBucket version).toNat ∈ versionBuckets := by
  rw [versionBucket]
  split
  · have hversion : version = 2 ∨ version = 3 ∨ version = 4 := by grind
    rcases hversion with rfl | rfl | rfl <;> decide
  · decide

/-- Every length has the bucket of the range that it falls into, and `keyLengthBuckets` lists all
ranges. -/
theorem keyLengthBucket_mem (bits : Nat) : keyLengthBucket bits ∈ keyLengthBuckets := by
  fun_cases keyLengthBucket bits <;> decide

/-- A date falls into a listed year if it is not before the first one or behind the last one;
otherwise, and if it is no date, it falls into a bucket that is listed as well. `yearBuckets`
depends on the current year in the same way. -/
theorem yearBucket_mem (date : String) (currentYear : Nat) :
    yearBucket date currentYear ∈ yearBuckets currentYear := by
  fun_cases yearBucket date currentYear with
  | case3 year _ hpast hfirst =>
    have hrange : year - firstYear ∈ List.range (max currentYear firstYear + 1 - firstYear) := by
      rw [List.mem_range]
      omega
    have hyear : firstYear + (year - firstYear) = year := by omega
    exact List.mem_cons_of_mem _ (List.mem_cons_of_mem _ (List.mem_map.2 ⟨_, hrange, hyear⟩))
  | _ => simp [yearBuckets]

end WebOfTrust
