import DiceExpr.Keep
import DiceExpr.Lexeme
import DiceExpr.Limits
import DiceExpr.ParseError
import DiceExpr.Text.Alphabetic

/-!
# Items

The parts of an expression that a reader sees: operators, integers, dice with their keep rule, groups
with the text between their parentheses, and references to formulas. Items are read off lexemes, up to
the first place where no item can be read.

Gaps between lexemes matter inside a die only: its number of faces, its keep letter and the number
after that letter count as parts of the die just when each touches the one before.

## Main statements

* `Item.length_lt_of_readDie`, `Item.length_lt_of_readGroup`: a die and a group use up lexemes.
-/

namespace DiceExpr

inductive Item where
  | operator (op : Operator)
  | integer (value : Nat)
  | die (sides : Nat) (keep : Keep)
  /-- The text between two parentheses that belong together. -/
  | group (body : List Char)
  | reference (name : String)
  /-- The place where no item can be read: the kind of the lexeme there, and what is wrong. -/
  | fault (kind : Lexeme.Kind) (error : ParseError)
  deriving DecidableEq

namespace Item

/-- The kind of the lexeme that an item starts with. -/
def lead : Item → Lexeme.Kind
  | operator op => .operator op
  | integer _ => .integer
  | die _ _ => .die
  | group _ => .openParen
  | reference _ => .formula
  | fault kind _ => kind

/-! ### Dice -/

/-- The number of dice that a keep letter names: one, unless an integer touches the letter. -/
def readKeepCount (limits : Limits) : List Lexeme → Except ParseError (Nat × List Lexeme)
  | [] => .ok (1, [])
  | l :: ls =>
    if l.isAdjacent ∧ l.kind = .integer then
      if l.value ≤ limits.maxDice then .ok (l.value, ls) else .error (.tooManyDice l.value)
    else .ok (1, l :: ls)

/-- The keep rule after a die's number of faces. A letter there that names no rule is an error. -/
def readKeep (limits : Limits) : List Lexeme → Except ParseError (Keep × List Lexeme)
  | [] => .ok (.all, [])
  | l :: ls =>
    if l.isAdjacent then
      match l.kind with
      | .highest => (readKeepCount limits ls).map fun (n, rest) => (.highest n, rest)
      | .lowest => (readKeepCount limits ls).map fun (n, rest) => (.lowest n, rest)
      | .unknown =>
        if Text.isAlphabetic l.head then .error (.invalidDieExtension l.head.toLower)
        else .ok (.all, l :: ls)
      | _ => .ok (.all, l :: ls)
    else .ok (.all, l :: ls)

def readDie (limits : Limits) : List Lexeme → Except ParseError (Nat × Keep × List Lexeme)
  | [] => .error .missingDieType
  | l :: ls =>
    if l.isAdjacent ∧ l.kind = .integer then
      if l.value ≤ limits.maxSides then
        (readKeep limits ls).map fun (keep, rest) => (l.value, keep, rest)
      else .error (.tooManySides l.value)
    else .error .missingDieType

theorem length_le_of_readKeepCount {limits : Limits} {ls rest : List Lexeme} {n : Nat}
    (h : readKeepCount limits ls = .ok (n, rest)) : rest.length ≤ ls.length := by
  cases ls with
  | nil =>
    simp only [readKeepCount, Except.ok.injEq, Prod.mk.injEq] at h
    simp [← h.2]
  | cons l ls =>
    simp only [readKeepCount] at h
    split at h
    · split at h
      · simp only [Except.ok.injEq, Prod.mk.injEq] at h
        simp [← h.2]
      · simp at h
    · simp only [Except.ok.injEq, Prod.mk.injEq] at h
      simp [← h.2]

theorem length_le_of_readKeep {limits : Limits} {ls rest : List Lexeme} {keep : Keep}
    (h : readKeep limits ls = .ok (keep, rest)) : rest.length ≤ ls.length := by
  have counted {f : Nat → Keep} {ls rest : List Lexeme} {keep : Keep}
      (h : (readKeepCount limits ls).map (fun (n, rest) => (f n, rest)) = .ok (keep, rest)) :
      rest.length ≤ ls.length := by
    cases hc : readKeepCount limits ls with
    | error e => simp [hc, Except.map] at h
    | ok r =>
      simp only [hc, Except.map, Except.ok.injEq, Prod.mk.injEq] at h
      exact h.2 ▸ length_le_of_readKeepCount hc
  cases ls with
  | nil =>
    simp only [readKeep, Except.ok.injEq, Prod.mk.injEq] at h
    simp [← h.2]
  | cons l ls =>
    simp only [readKeep] at h
    split at h
    · split at h
      · exact Nat.le_succ_of_le (counted h)
      · exact Nat.le_succ_of_le (counted h)
      · split at h
        · simp at h
        · simp only [Except.ok.injEq, Prod.mk.injEq] at h
          simp [← h.2]
      · simp only [Except.ok.injEq, Prod.mk.injEq] at h
        simp [← h.2]
    · simp only [Except.ok.injEq, Prod.mk.injEq] at h
      simp [← h.2]

theorem length_lt_of_readDie {limits : Limits} {ls rest : List Lexeme} {sides : Nat} {keep : Keep}
    (h : readDie limits ls = .ok (sides, keep, rest)) : rest.length < ls.length := by
  cases ls with
  | nil => simp [readDie] at h
  | cons l ls =>
    simp only [readDie] at h
    split at h
    · split at h
      · cases hk : readKeep limits ls with
        | error e => simp [hk, Except.map] at h
        | ok r =>
          simp only [hk, Except.map, Except.ok.injEq, Prod.mk.injEq] at h
          exact Nat.lt_succ_of_le (h.2.2 ▸ length_le_of_readKeep hk)
      · simp at h
    · simp at h

/-! ### Groups -/

/-- The text up to the `)` that closes a group, and the lexemes after it, where `opened` groups inside
are still open. -/
def readGroup (opened : Nat) : List Lexeme → Option (List Char × List Lexeme)
  | [] => none
  | l :: ls =>
    match l.kind, opened with
    | .closeParen, 0 => some (l.gap, ls)
    | .closeParen, n + 1 => (readGroup n ls).map fun (body, rest) => (l.source ++ body, rest)
    | .openParen, n => (readGroup (n + 1) ls).map fun (body, rest) => (l.source ++ body, rest)
    | _, n => (readGroup n ls).map fun (body, rest) => (l.source ++ body, rest)

theorem length_lt_of_readGroup {opened : Nat} {ls rest : List Lexeme} {body : List Char}
    (h : readGroup opened ls = some (body, rest)) : rest.length < ls.length := by
  have inner {n : Nat} {l : Lexeme} {ls rest : List Lexeme} {body : List Char}
      (ih : ∀ {body rest}, readGroup n ls = some (body, rest) → rest.length < ls.length)
      (h : (readGroup n ls).map (fun (body, rest) => (l.source ++ body, rest)) = some (body, rest)) :
      rest.length < (l :: ls).length := by
    obtain ⟨r, hr, eq⟩ := Option.map_eq_some_iff.1 h
    simp only [Prod.mk.injEq] at eq
    exact Nat.lt_succ_of_lt (eq.2 ▸ ih hr)
  induction ls generalizing opened body rest with
  | nil => simp [readGroup] at h
  | cons l ls ih =>
    simp only [readGroup] at h
    split at h
    · simp only [Option.some.injEq, Prod.mk.injEq] at h
      simp [← h.2]
    · exact inner ih h
    · exact inner ih h
    · exact inner ih h

/-! ### Reading -/

/-- The items that lexemes make up. A fault ends the reading. -/
def read (limits : Limits) : List Lexeme → List Item
  | [] => []
  | l :: ls =>
    match l.kind with
    | .operator op => .operator op :: read limits ls
    | .integer => .integer l.value :: read limits ls
    | .die =>
      match _h : readDie limits ls with
      | .ok (sides, keep, rest) => .die sides keep :: read limits rest
      | .error e => [.fault .die e]
    | .openParen =>
      match _h : readGroup 0 ls with
      | some (body, rest) => .group body :: read limits rest
      | none => [.fault .openParen .mismatchedParentheses]
    | .formula => .reference l.name :: read limits ls
    | .closeParen => [.fault .closeParen .mismatchedParentheses]
    | .unclosedBracket => [.fault .unclosedBracket .mismatchedBrackets]
    | .highest | .lowest | .unknown => [.fault l.kind (.invalidSymbol l.head)]
termination_by ls => ls.length
decreasing_by
  · simp
  · simp
  · exact Nat.lt_succ_of_lt (length_lt_of_readDie _h)
  · exact Nat.lt_succ_of_lt (length_lt_of_readGroup _h)
  · simp

end Item

def items (limits : Limits) (text : List Char) : List Item :=
  Item.read limits (lex text)

end DiceExpr
