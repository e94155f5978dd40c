import DiceExpr.Limits
import DiceExpr.ParseError
import DiceExpr.Postfix

/-!
# Conversions

The state of one pass that puts the parts of a text into postfix order: the tokens so far, and the
operators that still wait for their right operand.

## Main statements

* `Conversion.pushOperator_eq`: a new operator settles all that wait, so at most one ever waits.
-/

namespace DiceExpr

structure Conversion where
  /-- The tokens so far, newest first. -/
  output : List Token := []
  /-- The operators that wait for their right operand, newest first. -/
  pending : List Operator := []
  afterValue : Bool := false
  deriving DecidableEq

namespace Conversion

def pushValue (c : Conversion) (t : Token) : Conversion :=
  { c with output := t :: c.output, afterValue := true }

/-- Adds a value that nests no deeper than the limits allow. -/
def pushNested (c : Conversion) (limits : Limits) (t : Token) : Except ParseError Conversion :=
  if t.depth ≤ limits.maxDepth then .ok (c.pushValue t) else .error (.tooDeep limits.maxDepth)

/-- Adds a binary operator, which first settles those that bind at least as tightly. -/
def pushOperator (c : Conversion) (op : Operator) : Conversion :=
  let due := c.pending.takeWhile (fun top => op.precedence ≤ top.precedence)
  let waiting := c.pending.dropWhile (fun top => op.precedence ≤ top.precedence)
  { output := due.reverse.map .operator ++ c.output, pending := op :: waiting, afterValue := false }

/-- Takes back the value just before, as the count of a die or the multiplier of a group; the count
is one if no value stands there. -/
def takeCount (c : Conversion) : Postfix × Conversion :=
  match c.afterValue, c.output with
  | true, t :: earlier => (.single t, { c with output := earlier })
  | _, _ => (.literal 1, c)

def finish (c : Conversion) : Except ParseError Postfix :=
  match c.afterValue, c.pending with
  | false, op :: _ => .error (.misplacedOperator op)
  | _, _ =>
    match c.output.reverse ++ c.pending.map .operator with
    | [] => .error .empty
    | t :: ts => .ok (.ofTokens t ts)

/-- All operators share one tier, so a new one settles all that wait. -/
theorem pushOperator_eq (c : Conversion) (op : Operator) :
    c.pushOperator op =
      { output := c.pending.reverse.map .operator ++ c.output, pending := [op],
        afterValue := false } := by
  have due : (fun top : Operator => decide (op.precedence ≤ top.precedence)) = fun _ => true := by
    funext top
    exact decide_eq_true (Nat.le_of_eq (Operator.precedence_eq op top))
  have settled (ops : List Operator) :
      ops.takeWhile (fun _ => true) = ops ∧ ops.dropWhile (fun _ => true) = [] := by
    induction ops with
    | nil => exact ⟨rfl, rfl⟩
    | cons top ops ih => exact ⟨congrArg (top :: ·) ih.1, ih.2⟩
  simp only [pushOperator, due, settled]

end Conversion

end DiceExpr
