/-!
# Limits

Upper bounds on what an expression may ask for. Every bound is inclusive.
-/

namespace DiceExpr

/-- The bounds that apply while an expression is read and rolled. -/
structure Limits where
  /-- The most dice that one roll may throw, and the most that a keep rule may name. -/
  maxDice : Nat := 1000000
  /-- The most faces that a die may have. -/
  maxSides : Nat := 1000000000000000
  /-- The deepest nesting of groups, references and chained dice. -/
  maxDepth : Nat := 128
  deriving DecidableEq

end DiceExpr
