/-!
# Why an expression has no total
-/

namespace DiceExpr

/-- Why an expression that was read cannot be rolled. -/
inductive RollError where
  | zeroDivision
  /-- A roll of more dice than the limits allow. -/
  | tooManyDice (count : Int)
  /-- A die with fewer than two faces. -/
  | invalidDie (sides : Int)
  /-- An operator found too few values, or a sequence did not end with a single one. -/
  | malformed (remaining : Nat)
  deriving DecidableEq

def RollError.message : RollError → String
  | zeroDivision => "division by zero"
  | tooManyDice count => s!"{count} is too many dice"
  | invalidDie sides => s!"invalid die: d{sides}"
  | malformed remaining =>
    s!"malformed expression: evaluation left {remaining} values instead of one"

end DiceExpr
