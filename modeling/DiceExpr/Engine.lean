import DiceExpr.Evaluation
import DiceExpr.Parse

/-!
# Engines

An engine reads and rolls expressions with a store of formulas, limits and a roller of its own.
-/

namespace DiceExpr

inductive EvalError where
  | parse (why : ParseError)
  | roll (why : RollError)
  deriving DecidableEq

def EvalError.message : EvalError → String
  | parse why => why.message
  | roll why => why.message

/-- A store of formulas, limits and a roller. -/
structure Engine (σ : Type) (S : Type := Formulas) where
  formulas : S := by exact default
  limits : Limits := {}
  roller : σ

structure Evaluation (σ : Type) (S : Type := Formulas) where
  result : Except EvalError Int
  engine : Engine σ S
  events : List Event

namespace Engine

variable {σ S : Type} [FormulaStore S]

def parse (e : Engine σ S) (text : String) : Except ParseError Postfix :=
  DiceExpr.parse e.formulas e.limits text

def parseEvents (e : Engine σ S) (text : String) : List Event :=
  DiceExpr.parseEvents e.formulas e.limits text

/-- Reads a text and rolls it. Only the roller changes, and only if the text could be read. -/
def evaluate [Roller σ] (e : Engine σ S) (text : String) : Evaluation σ S :=
  let (parsed, reader) := runParse e.formulas e.limits text
  let reading := reader.events.reverse
  match parsed with
  | .error why => ⟨.error (.parse why), e, reading⟩
  | .ok p =>
    let (rolled, state) := p.roll e.limits e.roller
    let rolling := reading ++ state.events.reverse
    let after := { e with roller := state.roller }
    match rolled with
    | .error why => ⟨.error (.roll why), after, rolling⟩
    | .ok total => ⟨.ok total, after, rolling ++ [.evaluated text.toList total]⟩

/-- Saves a formula, and gives the reason if its expression cannot be read yet. A formula may name
others that are saved later, so it is saved in any case. -/
def define (e : Engine σ) (f : Formula) : Option ParseError × Engine σ :=
  let after := { e with formulas := e.formulas.insert f }
  match after.parse f.expression with
  | .ok _ => (none, after)
  | .error why => (some why, after)

end Engine

end DiceExpr
