/-!
# JSON values

A JSON text as a tree, with as much of its spelling as a form that is read from it depends on.
-/

namespace DiceExpr.Json

inductive Value where
  | null
  | bool (value : Bool)
  /-- A number, with its value if it is written as a natural number. -/
  | number (natural : Option Nat)
  /-- A string, with its text unless an escape in it is half of a surrogate pair. -/
  | string (text : Option String)
  | array (elements : List Value)
  /-- The members of an object, in order. A name has no text if half a surrogate pair is in it. -/
  | object (members : List (Option String × Value))

namespace Value

/-- The number of a value that is written as a natural number of at most 64 bits. -/
def word? : Value → Option Nat
  | number (some n) => if n ≤ 0xFFFFFFFFFFFFFFFF then some n else none
  | _ => none

def text? : Value → Option String
  | string text => text
  | _ => none

end Value

end DiceExpr.Json
