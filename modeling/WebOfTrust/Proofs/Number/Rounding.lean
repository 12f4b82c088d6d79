import Mathlib
import WebOfTrust.StrongSet.Description

/-!
# `WebOfTrust.Proofs.Number.Rounding`: counts as floating-point numbers

A count becomes a floating-point number by rounding it to 53 binary digits. The result has all of
its digits, as the exponent is small in either direction, and so has the product of two such
results. A number with all of its digits comes back unchanged from the 64 bits it is packed in, so
it is neither zero nor infinite.

- `roundWithAccuracy_full`: rounding a positive number of at least 53 digits;
- `unpack_pack`: a number with all digits, packed and unpacked;
- `floatOfCount_mul_pos`: the product of two counts that are not zero.
-/

set_option autoImplicit false

namespace WebOfTrust

open Float.Model Float.Model.UnpackedFloat

/-! ### Shifting and rounding -/

/-- To shift a mantissa by `n` is to divide it by a power of two, whatever is kept of the digits
that are dropped. -/
theorem mantissa_shiftRight (em : ExtendedMantissa) (n : Nat) :
    (em >>> n).mantissa = em.mantissa / 2 ^ n := by
  show (n.repeat ExtendedMantissa.shiftRightOne em).mantissa = _
  induction n with
  | zero => simp [Nat.repeat]
  | succ n ih =>
    show (n.repeat ExtendedMantissa.shiftRightOne em).mantissa / 2 = _
    rw [ih, Nat.div_div_eq_div_mul, Nat.pow_succ]

/-- Rounding goes up by one or stays, whichever way a tie is broken. So `roundedMantissa` may have
one digit more. -/
theorem roundedMantissa_bounds (em : ExtendedMantissa) :
    em.mantissa ≤ em.roundedMantissa ∧ em.roundedMantissa ≤ em.mantissa + 1 := by
  -- Two bits tell how what was dropped compares with a half.
  rcases em with ⟨m, _ | _, _ | _⟩
  all_goals
    simp only [ExtendedMantissa.roundedMantissa, ExtendedMantissa.accuracy,
      Accuracy.roundToNearestEven]
    omega

/-- The exponent of the last of 53 digits, for a number that is not so small that it would have
fewer. The bound `he` excludes subnormal numbers. -/
theorem targetExponent_eq {m : Nat} {e : Int} (he : -1074 ≤ e + m.log2 - 52) :
    Format.binary64.targetExponent (totalExponent m e) = e + m.log2 - 52 := by
  have hbits : (Format.binary64.mantissaBits : Int) = 53 := rfl
  have hmin : Format.binary64.minExponent = -1074 := rfl
  rw [Format.targetExponent, totalExponent, hbits, hmin]
  omega

/-- A number of which all but 53 digits are dropped. What was dropped is remembered for rounding.
The mantissa has its leading digit at place 52 then. -/
def first53 (m : Nat) : ExtendedMantissa :=
  ExtendedMantissa.ofMantissaAndAccuracy m .exact >>> (m.log2 - 52)

/-- These are 53 digits, the first of which is one: the mantissa lies between two neighbouring
powers of two. -/
theorem first53_bounds {m : Nat} (hm : 52 ≤ m.log2) :
    2 ^ 52 ≤ (first53 m).mantissa ∧ (first53 m).mantissa < 2 ^ 53 := by
  have hne : m ≠ 0 := by
    rintro rfl
    simp at hm
  have hpos : 0 < 2 ^ (m.log2 - 52) := Nat.two_pow_pos _
  rw [first53, mantissa_shiftRight]
  constructor
  · rw [Nat.le_div_iff_mul_le hpos, ← Nat.pow_add, Nat.add_sub_cancel' hm]
    exact Nat.log2_self_le hne
  · rw [Nat.div_lt_iff_lt_mul hpos, ← Nat.pow_add, show 53 + (m.log2 - 52) = m.log2 + 1 by omega]
    exact Nat.lt_log2_self

/-- The bounds of `first53_bounds`, in terms of the logarithm. -/
theorem log2_first53 {m : Nat} (hm : 52 ≤ m.log2) : (first53 m).mantissa.log2 = 52 := by
  obtain ⟨hlower, hupper⟩ := first53_bounds hm
  have h52 := (Nat.le_log2 (k := 52) (by omega)).2 hlower
  have h53 := (Nat.log2_lt (k := 53) (by omega)).2 hupper
  omega

/-- The first step of rounding is to take 53 digits, by `first53`. -/
theorem shiftToTargetExponent_eq {m : Nat} {e : Int} (hm : 52 ≤ m.log2)
    (he : -1074 ≤ e + m.log2 - 52) :
    shiftToTargetExponent Format.binary64 m e .exact = (first53 m, e + m.log2 - 52) := by
  have hshift : (e + m.log2 - 52 - e).toNat = m.log2 - 52 := by omega
  have hexponent : e + ((m.log2 - 52 : Nat) : Int) = e + m.log2 - 52 := by omega
  simp only [shiftToTargetExponent, targetExponent_eq he, shiftToExponent, hshift, first53,
    hexponent]

/-- A positive number with 53 digits, the last of which counts for some power of two between two
others. Such numbers are neither zero nor infinite. `lo` and `hi` are the bounds for that power. -/
def IsFull (lo hi : Int) (x : UnpackedFloat) : Prop :=
  ∃ m e hm, x = .finite .positive m e hm ∧ m.log2 = 52 ∧ lo ≤ e ∧ e ≤ hi

/-- Rounding is a shift, the choice between two neighbours, and a shift if that carried. Both shifts
are hypotheses, as they are different in the two cases. -/
theorem roundWithAccuracy_of_shift {m : Nat} {e e₁ e₂ : Int} {em₁ em₂ : ExtendedMantissa}
    (h₁ : shiftToTargetExponent Format.binary64 m e .exact = (em₁, e₁))
    (h₂ : shiftToTargetExponent Format.binary64 em₁.roundedMantissa e₁ .exact = (em₂, e₂))
    (hpos : 0 < em₂.mantissa) :
    roundWithAccuracy Format.binary64 .positive m e .exact
      = .finite .positive em₂.mantissa e₂ hpos := by
  unfold roundWithAccuracy
  simp only [h₁, h₂]
  exact dif_neg (Nat.pos_iff_ne_zero.1 hpos)

/-- Rounding to 53 digits. It may carry into one digit more, and then the exponent grows by one.
This is why `IsFull` has an interval of exponents. -/
theorem roundWithAccuracy_full {m : Nat} {e : Int} (hm : 52 ≤ m.log2)
    (he : -1074 ≤ e + m.log2 - 52) :
    IsFull (e + m.log2 - 52) (e + m.log2 - 51)
      (roundWithAccuracy Format.binary64 .positive m e .exact) := by
  obtain ⟨hlower, hupper⟩ := first53_bounds hm
  obtain ⟨hle, hle'⟩ := roundedMantissa_bounds (first53 m)
  -- If rounding carried, there are 54 digits, and the second shift drops the last one.
  have hlog : 52 ≤ (first53 m).roundedMantissa.log2 := (Nat.le_log2 (by omega)).2 (by omega)
  have hlog' : (first53 m).roundedMantissa.log2 < 54 := (Nat.log2_lt (by omega)).2 (by omega)
  have hpos : 0 < (first53 (first53 m).roundedMantissa).mantissa :=
    Nat.lt_of_lt_of_le (Nat.two_pow_pos 52) (first53_bounds hlog).1
  have hround := roundWithAccuracy_of_shift (shiftToTargetExponent_eq hm he)
    (shiftToTargetExponent_eq hlog (by omega)) hpos
  exact ⟨_, _, hpos, hround, log2_first53 hlog, by omega, by omega⟩

/-! ### Packing -/

/-- The leading digit, which is left out of the 52 stored bits, is put back in front of them. -/
theorem toNat_leading_append {m : Nat} (hm : m ≠ 0) (hlog : m.log2 = 52) :
    (1#1 ++ BitVec.ofNat 52 m).toNat = m := by
  have hlower : 2 ^ 52 ≤ m := (Nat.le_log2 hm).1 (Nat.le_of_eq hlog.symm)
  have hupper : m < 2 ^ 53 := (Nat.log2_lt hm).1 (by omega)
  rw [BitVec.toNat_append, BitVec.toNat_ofNat, BitVec.toNat_ofNat, ← Nat.shiftLeft_add_eq_or_of_lt
    (Nat.mod_lt _ (Nat.two_pow_pos 52)), Nat.shiftLeft_eq]
  omega

/-- A number with 53 digits has an exponent between the two that are exceptions, so it is unpacked
as it was packed. So arithmetic on floats is arithmetic on unpacked ones. -/
theorem unpack_pack {lo hi : Int} {x : UnpackedFloat} (hx : IsFull lo hi x) (hlo : -1074 ≤ lo)
    (hhi : hi ≤ 971) : (Float.Model.pack x).unpack = x := by
  obtain ⟨m, e, hm, rfl, hlog, hle, hle'⟩ := hx
  -- The exponent is packed as `b`, which is neither zero nor all ones.
  obtain ⟨b, hb, hb1, hb2⟩ : ∃ b : Nat, (b : Int) = e + 1075 ∧ 1 ≤ b ∧ b ≤ 2046 :=
    ⟨(e + 1075).toNat, by omega, by omega, by omega⟩
  have hbiased : (e + Format.binary64.exponentBias
      + Format.binary64.mantissaBitsWithoutImplicit).toNat = b := by
    show (e + (1023 : Int) + (52 : Int)).toNat = b
    omega
  have hvec : (BitVec.ofNat 11 b).toNat = b := by
    rw [BitVec.toNat_ofNat]
    omega
  have hpack : UnpackedFloat.pack Format.binary64 (.finite .positive m e hm)
      = packComponents Format.binary64 .positive (BitVec.ofNat 11 b) (BitVec.ofNat 52 m) := by
    have hnormal : m.log2 + 1 = Format.binary64.mantissaBits := by rw [hlog]; rfl
    simp only [UnpackedFloat.pack, hbiased, if_pos hnormal]
    exact if_neg (by show ¬ 2048 ≤ b + 1; omega)
  have hones : BitVec.ofNat 11 b ≠ -1#11 := by
    intro h
    rw [h] at hvec
    have : (-1#11).toNat = 2047 := rfl
    omega
  have hzero : BitVec.ofNat 11 b ≠ 0#11 := by
    intro h
    rw [h] at hvec
    have : (0#11).toNat = 0 := rfl
    omega
  show UnpackedFloat.unpack Format.binary64 (UnpackedFloat.pack Format.binary64 _) = _
  rw [hpack, UnpackedFloat.unpack]
  simp only [unpackMantissa_packComponents, unpackExponent_packComponents,
    unpackSign_packComponents]
  rw [if_neg hones, if_neg hzero]
  congr 1
  · exact toNat_leading_append (Nat.pos_iff_ne_zero.1 hm) hlog
  · show (((BitVec.ofNat 11 b).toNat : Int)) - (1023 + 52) = e
    omega

/-! ### Counts -/

/-- The digits that a short number lacks are added to it as zeros, which adds `s` to its
logarithm. -/
theorem log2_shiftLeft {n : Nat} (hn : n ≠ 0) (s : Nat) : (n <<< s).log2 = n.log2 + s := by
  have hlower := Nat.log2_self_le hn
  have hupper : n < 2 ^ (n.log2 + 1) := Nat.lt_log2_self
  rw [Nat.shiftLeft_eq]
  have hpos := Nat.two_pow_pos s
  have hne : n * 2 ^ s ≠ 0 := Nat.mul_ne_zero hn (Nat.pos_iff_ne_zero.1 hpos)
  have hge : n.log2 + s ≤ (n * 2 ^ s).log2 := by
    rw [Nat.le_log2 hne, Nat.pow_add]
    exact Nat.mul_le_mul_right _ hlower
  have hlt : (n * 2 ^ s).log2 < n.log2 + s + 1 := by
    rw [Nat.log2_lt hne, Nat.add_right_comm, Nat.pow_add]
    exact Nat.mul_lt_mul_of_pos_right hupper hpos
  omega

/-- A count of 64 bits becomes a number with 53 digits, be it shorter or longer than that. A longer
one is rounded, by `roundWithAccuracy_full`. -/
theorem ofNat_full {n : Nat} (hn : n ≠ 0) (hlt : n < 2 ^ 64) :
    IsFull (-52) 12 (UnpackedFloat.ofNat Format.binary64 n) := by
  have hlog : n.log2 < 64 := (Nat.log2_lt hn).2 hlt
  have hround : UnpackedFloat.ofNat Format.binary64 n
      = UnpackedFloat.round Format.binary64 .positive n 0 := by
    have hpos : compare (n : Int) 0 = .gt := Int.compare_eq_gt.2 (by omega)
    rw [UnpackedFloat.ofNat, UnpackedFloat.ofInt, UnpackedFloat.normalize, hpos]
    rfl
  have htarget : Format.binary64.targetExponent (totalExponent n 0) = 0 + n.log2 - 52 :=
    targetExponent_eq (by omega)
  -- A short number is filled up with zeros before it is rounded, a long one is not.
  have hlog' := log2_shiftLeft hn (0 - (0 + n.log2 - 52) : Int).toNat
  rw [hround, UnpackedFloat.round, htarget]
  simp only [decreaseExponent]
  obtain ⟨m, e, hm, heq, hfull, hle, hle'⟩ := roundWithAccuracy_full
    (m := n <<< (0 - (0 + n.log2 - 52) : Int).toNat)
    (e := 0 - ((0 - (0 + n.log2 - 52) : Int).toNat : Int))
    (by omega) (by omega)
  exact ⟨m, e, hm, heq, hfull, by omega, by omega⟩

/-- The floating-point number of a count has 53 digits, too, by way of its bits. Neither `pack` nor
`unpack` changes it. -/
theorem floatOfCount_full {n : Nat} (hn : n ≠ 0) (hlt : n < 2 ^ 64) :
    IsFull (-52) 12 (floatOfCount n).toModel.unpack := by
  have hfull := ofNat_full hn hlt
  have hunpack : (floatOfCount n).toModel.unpack = UnpackedFloat.ofNat Format.binary64 n := by
    have htoNat : (UInt64.ofNat n).toNat = n := UInt64.toNat_ofNat_of_lt' hlt
    show (Float.Model.pack (UnpackedFloat.ofNat Format.binary64 (UInt64.ofNat n).toNat)).unpack = _
    rw [htoNat, unpack_pack hfull (by decide) (by decide)]
  rwa [hunpack]

/-- The product of two numbers with 53 digits has 105 or 106 digits. -/
theorem log2_mul {m n : Nat} (hm : m.log2 = 52) (hn : n.log2 = 52) :
    104 ≤ (m * n).log2 ∧ (m * n).log2 ≤ 105 := by
  have hne : m ≠ 0 ∧ n ≠ 0 := by
    constructor <;> (rintro rfl; simp at *)
  have hlower : 2 ^ 52 * 2 ^ 52 ≤ m * n :=
    Nat.mul_le_mul ((Nat.le_log2 hne.1).1 (Nat.le_of_eq hm.symm))
      ((Nat.le_log2 hne.2).1 (Nat.le_of_eq hn.symm))
  have hupper : m * n < 2 ^ 53 * 2 ^ 53 :=
    Nat.mul_lt_mul'' ((Nat.log2_lt hne.1).1 (by omega)) ((Nat.log2_lt hne.2).1 (by omega))
  rw [← Nat.pow_add] at hlower hupper
  have hmul := Nat.mul_ne_zero hne.1 hne.2
  exact ⟨(Nat.le_log2 hmul).2 hlower, Nat.le_of_lt_succ ((Nat.log2_lt hmul).2 hupper)⟩

/-- A product of two numbers with 53 digits is rounded to 53 digits again. `log2_mul` says how many
digits there are to round. -/
theorem mul_full {lo hi lo' hi' : Int} {x y : UnpackedFloat} (hx : IsFull lo hi x)
    (hy : IsFull lo' hi' y) (hlo : -1126 ≤ lo + lo') :
    IsFull (lo + lo' + 52) (hi + hi' + 54) (UnpackedFloat.mul Format.binary64 x y) := by
  obtain ⟨m, e, hm, rfl, hlog, hle, hge⟩ := hx
  obtain ⟨m', e', hm', rfl, hlog', hle', hge'⟩ := hy
  obtain ⟨h104, h105⟩ := log2_mul hlog hlog'
  obtain ⟨r, f, hr, heq, hfull, hf, hf'⟩ := roundWithAccuracy_full (m := m * m') (e := e + e')
    (by omega) (by omega)
  exact ⟨r, f, hr, heq, hfull, by omega, by omega⟩

/-- The product of two counts is neither zero nor infinite, so a division by it gives a number.
`relativeCentralityChecked` relies on this. -/
theorem floatOfCount_mul_pos {a b : Nat} (ha : a ≠ 0) (hb : b ≠ 0) (ha' : a < 2 ^ 64)
    (hb' : b < 2 ^ 64) :
    0 < floatOfCount a * floatOfCount b ∧ (floatOfCount a * floatOfCount b).isFinite := by
  have hfull := mul_full (floatOfCount_full ha ha') (floatOfCount_full hb hb') (by decide)
  have hunpack : (floatOfCount a * floatOfCount b).toModel.unpack =
      UnpackedFloat.mul Format.binary64 (floatOfCount a).toModel.unpack
        (floatOfCount b).toModel.unpack := unpack_pack hfull (by decide) (by decide)
  obtain ⟨m, e, hm, heq, -⟩ := hfull
  rw [heq] at hunpack
  constructor
  · have hzero : (0 : Float).toModel.unpack = .zero .positive := by
      rfl
    refine decide_eq_true ?_
    show UnpackedFloat.lt (0 : Float).toModel.unpack
      (floatOfCount a * floatOfCount b).toModel.unpack = true
    rw [hunpack, hzero]
    rfl
  · show (floatOfCount a * floatOfCount b).toModel.unpack.isFinite = true
    rw [hunpack]
    rfl

end WebOfTrust
