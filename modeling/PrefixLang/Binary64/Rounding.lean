import PrefixLang.Binary64.Basic
/-!
Rounding to the nearest number, a tie going to the even pattern.
-/

namespace PrefixLang.Binary64

def roundHalfEven (num den : Nat) : Nat :=
  let q := num / den
  let r := num % den
  if 2 * r < den then q else if den < 2 * r then q + 1 else q + q % 2

/-- The pattern nearest to `num / den` units. Below 2 ^ 53 units patterns and units agree; above,
`t` low bits of the units are dropped, and each dropped bit adds one to the exponent field. A
carry out of the fraction runs into the exponent, and what is too large becomes infinity. -/
def patternNear (num den : Nat) : Nat :=
  let t := Nat.log2 (num / den) - 52
  min (t * fractionWeight + roundHalfEven num (den * Nat.pow 2 t)) infinityPattern

def round (negative : Bool) (num den : Nat) : Binary64 :=
  ofPattern negative (patternNear num den)

def patternNearDecimal (coefficient : Nat) (exponent : Int) : Nat :=
  patternNear (coefficient * Nat.pow 10 exponent.toNat * unitsPerOne)
    (Nat.pow 10 (-exponent).toNat)

def ofNat (n : Nat) : Binary64 := round false (n * unitsPerOne) 1

end PrefixLang.Binary64
