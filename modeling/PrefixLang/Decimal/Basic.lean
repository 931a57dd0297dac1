/-!
Decimal numbers with a whole coefficient, and the place of their leading digit.
-/

namespace PrefixLang

structure Decimal where
  coefficient : Nat
  exponent : Int
  deriving DecidableEq, Repr

namespace Decimal

def digits (d : Decimal) : List Char := Nat.toDigits 10 d.coefficient

/-- Where the point stands: the number is `0.d₁d₂… * 10 ^ pointPlace` for its digits `d₁d₂…`. -/
def pointPlace (d : Decimal) : Int := d.digits.length + d.exponent

def strip (coefficient : Nat) (exponent : Int) : Decimal :=
  if coefficient = 0 then ⟨0, exponent⟩
  else if coefficient % 10 = 0 then strip (coefficient / 10) (exponent + 1)
  else ⟨coefficient, exponent⟩
termination_by coefficient
decreasing_by omega

def leadingZeros (num den : Nat) : Nat :=
  if num = 0 ∨ den ≤ num * 10 then 0 else leadingZeros (num * 10) den + 1
termination_by den - num
decreasing_by omega

/-- The least `n` with `num / den < 10 ^ n`, for a positive fraction. -/
def placeOf (num den : Nat) : Int :=
  if den ≤ num then (Nat.toDigits 10 (num / den)).length else -(leadingZeros num den : Int)

end Decimal

end PrefixLang
