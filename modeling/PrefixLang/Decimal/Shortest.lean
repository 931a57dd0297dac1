import PrefixLang.Binary64.Rounding
import PrefixLang.Decimal.Basic
/-!
The decimal with the fewest digits that reads back as a given number. Of the decimals with a fixed
number of digits only the two neighbours of the number matter: if any reads back, one of them does.
-/

namespace PrefixLang.Decimal

def ReadsBack (pattern coefficient : Nat) (exponent : Int) : Prop :=
  Binary64.patternNearDecimal coefficient exponent = pattern

instance (pattern coefficient : Nat) (exponent : Int) :
    Decidable (ReadsBack pattern coefficient exponent) :=
  inferInstanceAs (Decidable (_ = _))

/-- The neighbour on the grid of multiples of `10 ^ exponent` that reads back. If both do, the
nearer one is taken, and of two equally near ones the larger. -/
def onGrid? (pattern : Nat) (exponent : Int) : Option Nat :=
  let num := Binary64.unitsOf pattern * Nat.pow 10 (-exponent).toNat
  let den := Binary64.unitsPerOne * Nat.pow 10 exponent.toNat
  let below := num / den
  let above := below + 1
  let order := if 2 * (num % den) < den then [below, above] else [above, below]
  order.find? fun c => ReadsBack pattern c exponent

def exact (pattern : Nat) : Decimal :=
  strip (Binary64.unitsOf pattern * Nat.pow 5 1074) (-1074)

/-- The fewest digits that read back, seventeen at the most. -/
def shortest (pattern : Nat) : Decimal :=
  let place := placeOf (Binary64.unitsOf pattern) Binary64.unitsPerOne
  let onGridOf (digits : Nat) : Option Decimal :=
    (onGrid? pattern (place - digits)).map fun c => strip c (place - digits)
  ((List.range' 1 17).findSome? onGridOf).getD (exact pattern)

end PrefixLang.Decimal
