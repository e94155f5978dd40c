/-!
# Operators

The four binary operators of an expression. They share one tier of precedence, so an expression is
worked out strictly from left to right.
-/

namespace DiceExpr

inductive Operator where
  | add
  | sub
  | mul
  | div
  deriving DecidableEq

namespace Operator

def symbol : Operator → Char
  | add => '+'
  | sub => '-'
  | mul => '*'
  | div => '/'

/-- How tightly an operator binds. There is a single tier. -/
def precedence : Operator → Nat
  | add | sub | mul | div => 1

/-- Applies an operator; only a division by zero has no value. A quotient is cut toward zero. -/
def apply : Operator → Int → Int → Option Int
  | add, a, b => some (a + b)
  | sub, a, b => some (a - b)
  | mul, a, b => some (a * b)
  | div, a, b => if b = 0 then none else some (a.tdiv b)

theorem symbol_injective {p q : Operator} (h : p.symbol = q.symbol) : p = q := by
  revert h
  cases p <;> cases q <;> decide

theorem precedence_eq (p q : Operator) : p.precedence = q.precedence := by
  cases p <;> cases q <;> rfl

end Operator

end DiceExpr
