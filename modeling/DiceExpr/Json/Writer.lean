/-!
# Writing JSON

The compact form: no blanks, and escapes only where the grammar asks for them.
-/

namespace DiceExpr.Json

def escape : Char → List Char
  | '"' => ['\\', '"']
  | '\\' => ['\\', '\\']
  | '\x08' => ['\\', 'b']
  | '\x0c' => ['\\', 'f']
  | '\n' => ['\\', 'n']
  | '\r' => ['\\', 'r']
  | '\t' => ['\\', 't']
  | c =>
    if c.toNat < 0x20 then
      ['\\', 'u', '0', '0', Nat.digitChar (c.toNat / 16), Nat.digitChar (c.toNat % 16)]
    else [c]

def renderString (text : String) : String :=
  String.ofList ('"' :: text.toList.flatMap escape ++ ['"'])

/-- The written form of an object of named fields, whose values are written already. -/
def renderObject (fields : List (String × String)) : String :=
  let members := fields.map fun (name, value) => renderString name ++ ":" ++ value
  "\x7b" ++ ",".intercalate members ++ "\x7d"

end DiceExpr.Json
