import DiceExpr.Formulas
import DiceExpr.Json.Reader
import DiceExpr.Json.Writer
import DiceExpr.Limits

/-!
# JSON forms of limits and formulas

Both are read from an object or from an array of the fields in order, and written as an object.
Members of an object that are no fields are passed over, but no field may be given twice.
-/

namespace DiceExpr

namespace Json.Value

/-- The value of a field of an object: `some none` if the object does not have it, and `none` if it
has it twice. -/
def field? (name : String) (members : List (Option String × Value)) : Option (Option Value) :=
  match members.filter (fun member => member.1 = some name) with
  | [] => some none
  | [(_, value)] => some (some value)
  | _ => none

def named (members : List (Option String × Value)) : Bool :=
  members.all (·.1.isSome)

end Json.Value

open Json (Value)

namespace Limits

/-- A bound that is given, or the bound that holds by default. -/
def boundOr (default : Nat) : Option Value → Option Nat
  | none => some default
  | some value => value.word?

/-- The limits of a JSON value. Bounds that are not given are those that hold by default. -/
def ofJson? : Value → Option Limits
  | .object members => do
    guard (Value.named members)
    return {
      maxDice := ← boundOr ({} : Limits).maxDice (← Value.field? "max_dice" members)
      maxSides := ← boundOr ({} : Limits).maxSides (← Value.field? "max_sides" members)
      maxDepth := ← boundOr ({} : Limits).maxDepth (← Value.field? "max_depth" members) }
  | .array elements => do
    guard (elements.length ≤ 3)
    return {
      maxDice := ← boundOr ({} : Limits).maxDice elements[0]?
      maxSides := ← boundOr ({} : Limits).maxSides elements[1]?
      maxDepth := ← boundOr ({} : Limits).maxDepth elements[2]? }
  | _ => none

def toJson (limits : Limits) : String :=
  Json.renderObject
    [("max_dice", toString limits.maxDice), ("max_sides", toString limits.maxSides),
      ("max_depth", toString limits.maxDepth)]

end Limits

namespace Formula

def ofJson? : Value → Option Formula
  | .object members => do
    guard (Value.named members)
    let name ← (← Value.field? "name" members) >>= Value.text?
    let expression ← (← Value.field? "expression" members) >>= Value.text?
    return { name, expression }
  | .array [name, expression] => return { name := ← name.text?, expression := ← expression.text? }
  | _ => none

def toJson (f : Formula) : String :=
  Json.renderObject
    [("name", Json.renderString f.name), ("expression", Json.renderString f.expression)]

end Formula

end DiceExpr
