import PrefixLang.Binary64.Rounding
/-!
Addition, subtraction, multiplication and division: the exact result, rounded once.
-/

namespace PrefixLang.Binary64

def signedUnits (x : Binary64) : Int := if x.isNegative then -(x.units : Int) else x.units

/-- A sum that is exactly zero is negative only if both summands are. -/
def add (x y : Binary64) : Binary64 :=
  if x.isNaN || y.isNaN then nan
  else if x.isInfinite then
    if y.isInfinite && x.isNegative != y.isNegative then nan else x
  else if y.isInfinite then y
  else
    let sum := x.signedUnits + y.signedUnits
    if sum = 0 then ofPattern (x.isNegative && y.isNegative) 0
    else round (decide (sum < 0)) sum.natAbs 1

def sub (x y : Binary64) : Binary64 := if y.isNaN then nan else add x y.neg

def mul (x y : Binary64) : Binary64 :=
  let negative := x.isNegative != y.isNegative
  if x.isNaN || y.isNaN then nan
  else if x.isInfinite || y.isInfinite then
    if x.isZero || y.isZero then nan else ofPattern negative infinityPattern
  else round negative (x.units * y.units) unitsPerOne

def div (x y : Binary64) : Binary64 :=
  let negative := x.isNegative != y.isNegative
  if x.isNaN || y.isNaN then nan
  else if x.isInfinite then
    if y.isInfinite then nan else ofPattern negative infinityPattern
  else if y.isInfinite then ofPattern negative 0
  else if y.isZero then
    if x.isZero then nan else ofPattern negative infinityPattern
  else round negative (x.units * unitsPerOne) y.units

end PrefixLang.Binary64
