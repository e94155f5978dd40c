/-!
# Ranges of characters

A property of characters is given by the ascending ranges of code points that have it.
-/

namespace DiceExpr.Text

/-- Ranges of code points, in ascending order, each with both of its ends. -/
abbrev Ranges := List (Nat × Nat)

def Ranges.has (ranges : Ranges) (c : Char) : Bool :=
  ranges.any fun range => range.1 ≤ c.toNat && c.toNat ≤ range.2

end DiceExpr.Text
