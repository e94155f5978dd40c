import DiceExpr.Lexeme
import DiceExpr.Postfix
import DiceExpr.Text.Quoted

/-!
# Events

What a reader and a roller of expressions report while they work.
-/

namespace DiceExpr

/-- Something that happened on the way from a text to a total. -/
inductive Event where
  | lexeme (kind : Lexeme.Kind)
  | group (body : List Char)
  | formula (name expression : String)
  | converted (text : List Char) (result : Postfix)
  /-- Dice were rolled; the total has no sign. -/
  | rolled (count sides : Int) (keep : Keep) (total : Nat)
  | evaluated (text : List Char) (total : Int)
  deriving DecidableEq

namespace Event

inductive Level where
  | trace
  | debug
  deriving DecidableEq

def Level.label : Level → String
  | trace => "TRACE"
  | debug => "DEBUG"

/-- Only finished conversions and evaluations are more than traces. -/
def level : Event → Level
  | converted .. | evaluated .. => .debug
  | _ => .trace

def message : Event → String
  | lexeme kind => s!"infix_to_postfix: next lexeme = {kind.label}"
  | group body => s!"parse_parentheses: {Text.quoted body}"
  | formula name expression => s!"parse_formula: [{name}] = {Text.quoted expression.toList}"
  | converted text result => s!"{Text.quoted text} in postfix: {result.render}"
  | rolled count sides keep total => s!"rolled {count}d{sides}{keep.render}: {total}"
  | evaluated text total => s!"{Text.quoted text} = {total}"

end Event

end DiceExpr
