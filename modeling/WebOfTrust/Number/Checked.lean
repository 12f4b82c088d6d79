/-!
# `WebOfTrust.Number.Checked`: steps that can go wrong

A row is picked by its number, counts have no sign, and a division asks for a divisor. Each of these
is a step that there may be no result for. The functions here say so, and otherwise they give what
the plain step gives.
-/

set_option autoImplicit false

namespace WebOfTrust

/-- Why a step has no result. The checked versions of loops return one where the program would
stop. -/
inductive Fault where
  /-- There is no row of this number. -/
  | outOfBounds (index : Nat)
  /-- The difference of two counts is below zero. -/
  | underflow (minuend subtrahend : Nat)
  | zeroDivisor
  deriving DecidableEq, Repr

namespace Checked

/-- The difference of two counts. Subtraction in `Nat` would give zero instead. -/
def sub (a b : Nat) : Except Fault Nat :=
  if b ≤ a then .ok (a - b) else .error (.underflow a b)

/-- Where the lesser count is subtracted, the difference is that of numbers. Proofs discharge the
check with it. -/
@[simp] theorem sub_of_le {a b : Nat} (h : b ≤ a) : sub a b = .ok (a - b) := if_pos h

/-- Changes the row of a number. `List.modify` would leave the list as it is. -/
def modify {α : Type} (rows : List α) (i : Nat) (f : α → α) : Except Fault (List α) :=
  if i < rows.length then .ok (rows.modify i f) else .error (.outOfBounds i)

/-- A row that is there is changed, as `List.modify` does it. -/
@[simp] theorem modify_of_lt {α : Type} {rows : List α} {i : Nat} (h : i < rows.length)
    (f : α → α) : modify rows i f = .ok (rows.modify i f) :=
  if_pos h

/-- The quotient of two numbers. Zeros of either sign are no divisors. `==` is the comparison of
floating-point numbers. -/
def div (x y : Float) : Except Fault Float := if y == 0 then .error .zeroDivisor else .ok (x / y)

end Checked

end WebOfTrust
