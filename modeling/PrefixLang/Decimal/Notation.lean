import PrefixLang.Decimal.Shortest
/-!
The two ways in which numbers are written. Results are written positionally while that stays short,
else with a power of ten; listings of the program write every number positionally.
-/

namespace PrefixLang

namespace Decimal

def positional (d : Decimal) : List Char :=
  let ds := d.digits
  let place := d.pointPlace
  if place ≤ 0 then
    '0' :: '.' :: (List.replicate (-place).toNat '0' ++ ds)
  else if (ds.length : Int) ≤ place then
    ds ++ List.replicate (place - ds.length).toNat '0'
  else
    ds.take place.toNat ++ '.' :: ds.drop place.toNat

def scientific (d : Decimal) : List Char :=
  let power := d.pointPlace - 1
  let sign := if power < 0 then '-' else '+'
  let tail := d.digits.drop 1
  d.digits.take 1 ++ (if tail.isEmpty then [] else '.' :: tail)
    ++ 'e' :: sign :: Nat.toDigits 10 power.natAbs

end Decimal

namespace Binary64

def signed (negative : Bool) (magnitude : List Char) : String :=
  String.ofList (if negative then '-' :: magnitude else magnitude)

def positionalFrom : Nat := patternNearDecimal 1 (-6)

def scientificFrom : Nat := patternNearDecimal 1 21

/-- A number as results show it. The sign of zero is not shown. -/
def resultText (x : Binary64) : String :=
  if x.isNaN then "NaN"
  else if x.isInfinite then signed x.isNegative "Infinity".toList
  else if x.isZero then "0"
  else
    let d := Decimal.shortest x.pattern
    signed x.isNegative <|
      if positionalFrom ≤ x.pattern ∧ x.pattern < scientificFrom then d.positional
      else d.scientific

/-- A number as listings show it: never with a power of ten, and zero with its sign. -/
def listingText (x : Binary64) : String :=
  if x.isNaN then "NaN"
  else if x.isInfinite then signed x.isNegative "inf".toList
  else if x.isZero then signed x.isNegative ['0']
  else signed x.isNegative (Decimal.shortest x.pattern).positional

end Binary64

end PrefixLang
