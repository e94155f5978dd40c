import DiceExpr.Text.GraphemeExtend
import DiceExpr.Text.Ignorable
import DiceExpr.Text.Unprintable

/-!
# Quoted text

A text between double quotes, with an escape for each character that would not show as itself.
-/

namespace DiceExpr.Text

/-- Whether a character cannot be told from its look: it has no printed form, a display may ignore
it, or it shows only with the character before. -/
def isHidden (c : Char) : Bool :=
  isAttached c || isUnprintable c || isIgnorable c

/-- The written form of a character inside quotes: an escape of its own for the quote, the
backslash, the tab, the ends of lines and the null character, and the code point in hexadecimal for
other characters that are hidden. -/
def escape : Char → List Char
  | '"' => ['\\', '"']
  | '\\' => ['\\', '\\']
  | '\t' => ['\\', 't']
  | '\n' => ['\\', 'n']
  | '\r' => ['\\', 'r']
  | '\x00' => ['\\', '0']
  | c =>
    if isHidden c then
      ['\\', 'u', '\x7b'] ++ Nat.toDigits 16 c.toNat ++ ['\x7d']
    else [c]

/-- The text between quotes. -/
def quoted (text : List Char) : String :=
  String.ofList ('"' :: text.flatMap escape ++ ['"'])

example : quoted ['a', '\'', '"', '\n', 'é', '\u0301', '\x7f'] =
    "\"a'\\\"\\né\\u\x7b301\x7d\\u\x7b7f\x7d\"" := by
  decide +kernel

example : quoted ['\u3164', '\uff76', '\uff9e'] = "\"\\u\x7b3164\x7d\uff76\uff9e\"" := by
  decide +kernel

end DiceExpr.Text
