/-!
Binary floating-point numbers of 64 bits, as bit patterns. The magnitude of a finite number is a
whole number of units of 2 ^ (-1074), the smallest positive number, so exact arithmetic needs
only natural numbers.
-/

namespace PrefixLang

/-- One sign bit, eleven exponent bits and fifty-two fraction bits. -/
structure Binary64 where
  bits : UInt64
  deriving DecidableEq, Repr

namespace Binary64

def signWeight : Nat := Nat.pow 2 63
def fractionWeight : Nat := Nat.pow 2 52

/-- The pattern of infinity without its sign; the patterns above it are not numbers. -/
def infinityPattern : Nat := 2047 * fractionWeight

/-- How many units of 2 ^ (-1074) make one. -/
def unitsPerOne : Nat := Nat.pow 2 1074

/-- The bits without the sign. On numbers its order is the order of magnitudes. -/
def pattern (x : Binary64) : Nat := x.bits.toNat % signWeight

def isNegative (x : Binary64) : Bool := signWeight ≤ x.bits.toNat
def isNaN (x : Binary64) : Bool := infinityPattern < x.pattern
def isInfinite (x : Binary64) : Bool := x.pattern = infinityPattern

def isZero (x : Binary64) : Bool := x.pattern = 0

def ofPattern (negative : Bool) (pattern : Nat) : Binary64 :=
  ⟨UInt64.ofNat ((if negative then signWeight else 0) + pattern)⟩

def nan : Binary64 := ⟨0x7ff8000000000000⟩

def neg (x : Binary64) : Binary64 := ofPattern (!x.isNegative) x.pattern

def unitsOf (pattern : Nat) : Nat :=
  let exponent := pattern / fractionWeight
  let fraction := pattern % fractionWeight
  if exponent = 0 then fraction else (fractionWeight + fraction) * Nat.pow 2 (exponent - 1)

def units (x : Binary64) : Nat := unitsOf x.pattern

end Binary64

end PrefixLang
