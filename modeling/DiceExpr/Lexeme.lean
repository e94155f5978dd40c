import DiceExpr.Operator

/-!
# Lexemes

The smallest parts of an expression: digit runs, the letters of dice, operators, parentheses and
bracketed names. The longest lexeme wins. Blanks (spaces and tabs) separate lexemes and belong to the
one after them, so a text can be put together again from its lexemes but for its last blanks.

## Main statements

* `lex_source`: the lexemes of a text make up the text but for some blanks at its end.
* `Lexeme.length_lt_of_next?`: each lexeme uses up some of the text.
-/

namespace DiceExpr

namespace Lexeme

inductive Kind where
  | integer
  | die
  | highest
  | lowest
  | operator (op : Operator)
  | openParen
  | closeParen
  | formula
  /-- A bracket that is never closed, with the rest of the text. -/
  | unclosedBracket
  /-- A character that starts nothing. -/
  | unknown
  deriving DecidableEq

def Kind.label : Kind → String
  | integer => "<integer>"
  | die => "'d'"
  | highest => "'h'"
  | lowest => "'l'"
  | operator op => String.ofList ['\'', op.symbol, '\'']
  | openParen => "'('"
  | closeParen => "')'"
  | formula => "<formula>"
  | unclosedBracket | unknown => "<error>"

/-- Whether a unary minus may stand before a lexeme of a kind. -/
def Kind.isNegatable : Kind → Bool
  | integer | die | openParen | formula | unclosedBracket => true
  | _ => false

def Kind.ofChar : Char → Kind
  | 'd' | 'D' => die
  | 'h' | 'H' => highest
  | 'l' | 'L' => lowest
  | '+' => operator .add
  | '-' => operator .sub
  | '*' => operator .mul
  | '/' => operator .div
  | '(' => openParen
  | ')' => closeParen
  | _ => unknown

end Lexeme

/-- A lexeme, with the blanks before it. Its text is not empty. -/
structure Lexeme where
  gap : List Char
  kind : Lexeme.Kind
  head : Char
  tail : List Char
  deriving DecidableEq

namespace Lexeme

def text (l : Lexeme) : List Char := l.head :: l.tail

def source (l : Lexeme) : List Char := l.gap ++ l.text

/-- Whether a lexeme touches the one before it. -/
def isAdjacent (l : Lexeme) : Bool := l.gap.isEmpty

/-- The number that a run of digits stands for. -/
def value (l : Lexeme) : Nat :=
  l.text.foldl (fun n c => 10 * n + (c.toNat - '0'.toNat)) 0

/-- The name between the brackets of a formula lexeme. -/
def name (l : Lexeme) : String := String.ofList l.tail.dropLast

end Lexeme

/-! ### Lexing -/

def isBlank (c : Char) : Bool := c = ' ' || c = '\t'

def isNameChar (c : Char) : Bool := c != ']'

namespace Lexeme

/-- The lexeme that starts with the character `c`, and what is left of `cs` after it. -/
def cut (gap : List Char) (c : Char) (cs : List Char) : Lexeme × List Char :=
  if c.isDigit then
    (⟨gap, .integer, c, cs.takeWhile Char.isDigit⟩, cs.dropWhile Char.isDigit)
  else if c = '[' then
    match cs.dropWhile isNameChar with
    | [] => (⟨gap, .unclosedBracket, c, cs⟩, [])
    | close :: rest => (⟨gap, .formula, c, cs.takeWhile isNameChar ++ [close]⟩, rest)
  else (⟨gap, .ofChar c, c, []⟩, cs)

/-- The first lexeme of a text, and what is left after it. -/
def next? (text : List Char) : Option (Lexeme × List Char) :=
  match text.dropWhile isBlank with
  | [] => none
  | c :: cs => some (cut (text.takeWhile isBlank) c cs)

@[simp]
theorem gap_cut (gap : List Char) (c : Char) (cs : List Char) : (cut gap c cs).1.gap = gap := by
  simp only [cut]
  repeat' split
  all_goals rfl

theorem source_cut (gap : List Char) (c : Char) (cs : List Char) :
    (cut gap c cs).1.source ++ (cut gap c cs).2 = gap ++ c :: cs := by
  simp only [cut]
  split
  · simp [source, text]
  · split
    · split
      · simp [source, text]
      · next close rest h =>
        have whole : cs.takeWhile isNameChar ++ close :: rest = cs := by
          rw [← h, List.takeWhile_append_dropWhile]
        simp [source, text, whole]
    · simp [source, text]

theorem source_next? {cs rest : List Char} {l : Lexeme} (h : next? cs = some (l, rest)) :
    l.source ++ rest = cs := by
  simp only [next?] at h
  split at h
  · simp at h
  · next c ds hd =>
    have cutOff := source_cut (cs.takeWhile isBlank) c ds
    rw [Option.some.inj h, ← hd, List.takeWhile_append_dropWhile] at cutOff
    exact cutOff

theorem length_lt_of_next? {cs rest : List Char} {l : Lexeme} (h : next? cs = some (l, rest)) :
    rest.length < cs.length := by
  have whole := congrArg List.length (source_next? h)
  simp only [source, text, List.length_append, List.length_cons] at whole
  omega

end Lexeme

def lex (text : List Char) : List Lexeme :=
  match _h : Lexeme.next? text with
  | none => []
  | some (l, rest) => l :: lex rest
termination_by text.length
decreasing_by exact Lexeme.length_lt_of_next? _h

/-- The lexemes of a text make up the text but for some blanks at its end. -/
theorem lex_source (text : List Char) :
    ∃ blanks, blanks.all isBlank ∧ (lex text).flatMap Lexeme.source ++ blanks = text := by
  fun_induction lex text with
  | case1 text h =>
    refine ⟨text, ?_, rfl⟩
    simp only [Lexeme.next?] at h
    split at h
    · next hd =>
      have whole := List.takeWhile_append_dropWhile (p := isBlank) (l := text)
      rw [hd, List.append_nil] at whole
      rw [← whole]
      exact List.all_takeWhile
    · simp at h
  | case2 text l rest h ih =>
    obtain ⟨blanks, hb, hrest⟩ := ih
    refine ⟨blanks, hb, ?_⟩
    rw [List.flatMap_cons, List.append_assoc, hrest, Lexeme.source_next? h]

end DiceExpr
