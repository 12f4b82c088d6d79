import WebOfTrust.Text.Digits

/-!
# `WebOfTrust.Proofs.Text.Digits`: written numbers are read back

Tables and corpora hold their numbers in decimal digits, without sign and without leading zeros.

- `readNumber_toString`: a number below the limit is read back from its digits;
- `not_mem_toString`: there is nothing but digits among them, so a separator is none of them.
-/

set_option autoImplicit false

namespace WebOfTrust.Text

/-- The digit that is written for a number below ten is read as this number. There are ten cases,
which `decide` goes through. -/
theorem digitBelow_digitChar {d : Nat} (h : d < 10) : digitBelow 10 d.digitChar = some d := by
  have all : ∀ d < 10, digitBelow 10 (Nat.digitChar d) = some d := by decide
  exact all d h

/-- Digits are read from the left, so the value of the first ones is where the others go on. -/
theorem readDigits_append (radix value : Nat) (cs ds : List Char) :
    readDigits radix value (cs ++ ds)
      = (readDigits radix value cs).bind fun v => readDigits radix v ds := by
  induction cs generalizing value with
  | nil => rfl
  | cons c cs ih =>
    simp only [List.cons_append, readDigits]
    cases digitBelow radix c with
    | none => rfl
    | some d => exact ih _

/-- The decimal digits of a number are read as this number. The induction is that of `Nat.toDigits`,
which takes off the last digit. -/
theorem readDigits_toDigits (n : Nat) : readDigits 10 0 (Nat.toDigits 10 n) = some n := by
  -- By strong induction, since the digits before the last one are those of `n / 10`.
  induction n using Nat.strongRecOn with
  | ind n ih =>
    rw [Nat.toDigits_eq_if (by decide)]
    split
    · next h => simp [readDigits, digitBelow_digitChar h]
    · next h =>
      have hd : n % 10 < 10 := Nat.mod_lt _ (by decide)
      rw [readDigits_append, ih (n / 10) (by omega)]
      simp only [Option.bind_some, readDigits, digitBelow_digitChar hd]
      show some (n / 10 * 10 + n % 10) = some n
      rw [Nat.div_add_mod']

/-- The digits of a number are digits: a number is written without a sign and without blanks. -/
theorem isDigit_of_mem_toString {n : Nat} {c : Char} (h : c ∈ (toString n).toList) :
    c.isDigit = true := by
  rw [Nat.toString_eq_repr, Nat.toList_repr] at h
  exact Nat.isDigit_of_mem_toDigits (by decide) (by decide) h

/-- What is no digit is not in a number, such as a separator or a line feed. -/
theorem not_mem_toString {n : Nat} {c : Char} (h : c.isDigit = false) :
    c ∉ (toString n).toList := by
  intro hc
  rw [isDigit_of_mem_toString hc] at h
  cases h

/-- A number is read back from its digits, as long as it is below the limit. A sign is allowed by
`readNumber`, but not written. -/
theorem readNumber_toString {n limit : Nat} (h : n < limit) :
    readNumber 10 limit (toString n).toList = some n := by
  -- There is no sign for the reader to take off.
  have hplus : '+' ∉ (toString n).toList := not_mem_toString (by decide)
  have hread : readDigits 10 0 (toString n).toList = some n := by
    rw [Nat.toString_eq_repr, Nat.toList_repr, readDigits_toDigits]
  have hne : (toString n).toList ≠ [] := by
    rw [Nat.toString_eq_repr, Nat.toList_repr]
    exact Nat.toDigits_ne_nil
  generalize (toString n).toList = cs at *
  cases cs with
  | nil => exact absurd rfl hne
  | cons c cs =>
    have hc : c ≠ '+' := fun hc => hplus (by simp [hc])
    simp [readNumber, hc, hread, h]

/-- A byte is read back from its decimal digits. The bound 256 is met by its type, so `readNumber`
has no reason to refuse it. -/
theorem readByte_toString (b : UInt8) : readByte (toString b.toNat) = some b := by
  rw [readByte, readNumber_toString b.toNat_lt]
  simp

end WebOfTrust.Text
