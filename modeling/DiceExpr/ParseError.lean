import DiceExpr.Operator
import DiceExpr.Text.Quoted

/-!
# Why a text is not an expression
-/

namespace DiceExpr

/-- Why a text cannot be read as an expression. -/
inductive ParseError where
  /-- A character that nothing starts with here. -/
  | invalidSymbol (symbol : Char)
  | mismatchedParentheses
  | mismatchedBrackets
  /-- An operator without an operand on one of its sides. -/
  | misplacedOperator (op : Operator)
  /-- A die whose letter has no number of faces right after it. -/
  | missingDieType
  /-- A die with a letter right after it that is no keep rule. -/
  | invalidDieExtension (letter : Char)
  /-- A reference to a name that no formula has. -/
  | unknownFormula (name : String)
  /-- A reference to a formula that is being expanded already. -/
  | selfReferentialFormula (name : String)
  /-- A keep rule that names more dice than the limits allow. -/
  | tooManyDice (count : Nat)
  /-- A die with more faces than the limits allow. -/
  | tooManySides (sides : Nat)
  /-- Nesting deeper than the limits allow. -/
  | tooDeep (maxDepth : Nat)
  | empty
  deriving DecidableEq

def ParseError.message : ParseError → String
  | invalidSymbol symbol => s!"invalid symbol: {symbol}"
  | mismatchedParentheses => "mismatched parentheses"
  | mismatchedBrackets => "mismatched brackets"
  | misplacedOperator op => s!"misplaced operator: {op.symbol}"
  | missingDieType => "no die type given"
  | invalidDieExtension letter => s!"invalid die extension: {letter}"
  | unknownFormula name => s!"no formula named {Text.quoted name.toList}"
  | selfReferentialFormula name => s!"[{name}] is self-referential"
  | tooManyDice count => s!"{count} is too many dice"
  | tooManySides sides => s!"d{sides} has too many sides"
  | tooDeep maxDepth => s!"expression nested more than {maxDepth} levels deep"
  | empty => "empty expression"

end DiceExpr
