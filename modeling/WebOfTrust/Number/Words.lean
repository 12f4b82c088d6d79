/-!
# `WebOfTrust.Number.Words`: arithmetic in words of 64 bits

Counts are kept in words without a sign, and numbers that may be negative in words with one. What a
word does not hold would wrap around, and nothing but the result would tell. The functions here
report it instead, and otherwise they give what the plain step gives.
-/

set_option autoImplicit false

namespace WebOfTrust

/-- A result that its word does not hold. It carries the exact result. -/
inductive Overflow where
  | unsigned (value : Nat)
  | signed (value : Int)
  deriving DecidableEq, Repr

namespace Word

/-- A count, in a word without a sign. `Word.unsigned_of_lt` is the case in which it fits. -/
def unsigned (n : Nat) : Except Overflow Nat :=
  if n < UInt64.size then .ok n else .error (.unsigned n)

/-- A number, in a word with a sign. `Word.signed_of_bounds` is the case in which it fits. -/
def signed (v : Int) : Except Overflow Int :=
  if Int64.minValue.toInt ≤ v ∧ v ≤ Int64.maxValue.toInt then .ok v else .error (.signed v)

/-- A count below `2 ^ 64` is held as it is. -/
@[simp] theorem unsigned_of_lt {n : Nat} (h : n < UInt64.size) : unsigned n = .ok n :=
  if_pos h

/-- A number between the bounds of a signed word is held as it is. The bounds are written out, so
that `omega` can compare with them. -/
@[simp] theorem signed_of_bounds {v : Int} (h : -0x8000000000000000 ≤ v ∧ v < 0x8000000000000000) :
    signed v = .ok v :=
  if_pos ⟨h.1, Int.le_of_lt_add_one h.2⟩

variable {α : Type}

/-- Adds up counts that are computed one after the other. Each subtotal is checked, not only the
sum. -/
def sum (items : List α) (count : α → Except Overflow Nat) : Except Overflow Nat :=
  items.foldlM (fun subtotal item => do unsigned (subtotal + (← count item))) 0

end Word

end WebOfTrust
