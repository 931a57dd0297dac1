/-!
Sets of characters given by the ranges of their code points.
-/

namespace PrefixLang.Text

/-- Ranges of code points, both ends included, in ascending order. -/
abbrev CharClass := List (Nat × Nat)

def CharClass.has (ranges : CharClass) (c : Char) : Bool :=
  ranges.any fun (first, last) => first ≤ c.toNat && c.toNat ≤ last

end PrefixLang.Text
